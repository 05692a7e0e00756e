import Mathlib.Data.List.Induction
import Xinu.System.Usb

namespace Xinu.Usb
open Lib (Byte)

/-- The descriptors from `i` on, each behind the one before. -/
inductive Chain (config : Nat → Byte) (total : Nat) : Nat → List Nat → Prop
  | last {i : Nat} : total < i + HEADER_SIZE → Chain config total i []
  | next {i : Nat} {rest : List Nat} : i + HEADER_SIZE ≤ total → HEADER_SIZE ≤ bLength config i →
      Chain config total (i + bLength config i) rest → Chain config total i (i :: rest)

structure Setting where
  interface : Nat
  endpoints : List Nat
  deriving DecidableEq, Repr

def Setting.more (g : Setting) (i : Nat) : Setting := { g with endpoints := g.endpoints ++ [i] }

section
variable (config : Nat → Byte) (total : Nat)

def isInterface (i : Nat) : Prop := bDescriptorType config i = USB_DESCRIPTOR_TYPE_INTERFACE
def isEndpoint (i : Nat) : Prop := bDescriptorType config i = USB_DESCRIPTOR_TYPE_ENDPOINT

instance (i : Nat) : Decidable (isInterface config i) := inferInstanceAs (Decidable (_ = _))
instance (i : Nat) : Decidable (isEndpoint config i) := inferInstanceAs (Decidable (_ = _))

def addDescriptor (gs : List Setting) (i : Nat) : List Setting :=
  if isInterface config i then gs ++ [⟨i, []⟩]
  else if isEndpoint config i then
    match gs.getLast? with
    | none => gs
    | some g => gs.dropLast ++ [g.more i]
  else gs

def settings (ds : List Nat) : List Setting := ds.foldl (addDescriptor config) []

def isMain (g : Setting) : Bool := bAlternateSetting config g.interface = 0

def mains (ds : List Nat) : List Setting := (settings config ds).filter (isMain config)

structure WellFormed (ds : List Nat) : Prop where
  interface : ∀ i ∈ ds, isInterface config i → i + INTERFACE_SIZE ≤ total
  endpoint : ∀ i ∈ ds, isEndpoint config i → i + ENDPOINT_SIZE ≤ total
  -- no endpoint before the first interface
  behind : ∀ before i, before ++ [i] <+: ds → isEndpoint config i → mains config before ≠ []
  interfaces : (mains config ds).length ≤ USB_DEVICE_MAX_INTERFACES
  endpoints : ∀ g ∈ mains config ds, g.endpoints.length ≤ USB_DEVICE_MAX_ENDPOINTS
  counted : ∀ g ∈ (settings config ds).dropLast, isMain config g → g.endpoints.length = bNumEndpoints config g.interface

end

def Tables.of (gs : List Setting) : Tables :=
  ⟨fun k => gs[k]?.map Setting.interface, fun k j => gs[k]?.bind fun g => g.endpoints[j]?⟩

section
variable {config : Nat → Byte} {total : Nat}

theorem settings_snoc (ds : List Nat) (i : Nat) :
    settings config (ds ++ [i]) = addDescriptor config (settings config ds) i := by
  rw [settings, List.foldl_append]
  rfl

/-- The variables of the loop behind the descriptors `ds`. -/
structure Follows (config : Nat → Byte) (w : Walk) (ds : List Nat) : Prop where
  interface_idx : w.interface_idx = (mains config ds).length - 1
  alternate : w.in_alternate_setting = (settings config ds).getLast?.any fun g => !isMain config g
  endpoint_idx : ∀ g, (mains config ds).getLast? = some g → w.endpoint_idx = g.endpoints.length - 1
  tables : w.dev = Tables.of (mains config ds)

theorem settings_interface {ds : List Nat} {i : Nat} (interface : isInterface config i) :
    settings config (ds ++ [i]) = settings config ds ++ [⟨i, []⟩] := by
  rw [settings_snoc, addDescriptor, if_pos interface]

theorem isEndpoint_other {i : Nat} (endpoint : isEndpoint config i) : ¬ isInterface config i := by
  intro interface
  rw [isEndpoint] at endpoint
  rw [isInterface, endpoint] at interface
  cases interface

theorem settings_endpoint {ds : List Nat} {gs : List Setting} {g : Setting} {i : Nat} (endpoint : isEndpoint config i)
    (split : settings config ds = gs ++ [g]) : settings config (ds ++ [i]) = gs ++ [g.more i] := by
  rw [settings_snoc, addDescriptor, if_neg (isEndpoint_other endpoint), if_pos endpoint, split, List.getLast?_concat,
    List.dropLast_concat]

theorem settings_other {ds : List Nat} {i : Nat} (interface : ¬ isInterface config i) (endpoint : ¬ isEndpoint config i) :
    settings config (ds ++ [i]) = settings config ds := by
  rw [settings_snoc, addDescriptor, if_neg interface, if_neg endpoint]

theorem isMain_more (g : Setting) (i : Nat) : isMain config (g.more i) = isMain config g := rfl

theorem mains_interface {ds : List Nat} {i : Nat} (interface : isInterface config i) :
    mains config (ds ++ [i]) = mains config ds ++ if isMain config ⟨i, []⟩ then [⟨i, []⟩] else [] := by
  rw [mains, settings_interface interface, List.filter_append, List.filter_cons, List.filter_nil, mains]

theorem mains_split {ds : List Nat} {gs : List Setting} {g : Setting} (split : settings config ds = gs ++ [g]) :
    mains config ds = gs.filter (isMain config) ++ if isMain config g then [g] else [] := by
  rw [mains, split, List.filter_append, List.filter_cons, List.filter_nil]

theorem mains_other {ds : List Nat} {i : Nat} (interface : ¬ isInterface config i) (endpoint : ¬ isEndpoint config i) :
    mains config (ds ++ [i]) = mains config ds := by
  rw [mains, settings_other interface endpoint]
  rfl

theorem mains_count {ds : List Nat} {gs : List Setting} {g : Setting} {i : Nat} (endpoint : isEndpoint config i)
    (split : settings config ds = gs ++ [g]) : (mains config (ds ++ [i])).length = (mains config ds).length := by
  rw [mains_split split, mains_split (settings_endpoint endpoint split), isMain_more]
  by_cases mainly : isMain config g
  · rw [if_pos mainly, if_pos mainly, List.length_append, List.length_append]
    rfl
  · rw [if_neg mainly, if_neg mainly]

theorem settings_split {ds : List Nat} (nonempty : mains config ds ≠ []) : ∃ gs g, settings config ds = gs ++ [g] := by
  rcases List.eq_nil_or_concat' (settings config ds) with none | ⟨gs, g, split⟩
  · rw [mains, none] at nonempty
    exact absurd rfl nonempty
  · exact ⟨gs, g, split⟩

structure Allowed (config : Nat → Byte) (total : Nat) (ds : List Nat) (i : Nat) : Prop where
  interface : isInterface config i → i + INTERFACE_SIZE ≤ total ∧
    (∀ g, (settings config ds).getLast? = some g → isMain config g → g.endpoints.length = bNumEndpoints config g.interface) ∧
    (isMain config ⟨i, []⟩ → (mains config ds).length < USB_DEVICE_MAX_INTERFACES)
  endpoint : isEndpoint config i → i + ENDPOINT_SIZE ≤ total ∧ mains config ds ≠ [] ∧
    ∀ g, (settings config ds).getLast? = some g → isMain config g → g.endpoints.length < USB_DEVICE_MAX_ENDPOINTS

theorem prefix_snoc {α : Type} {before ds : List α} {i j : α} (part : before ++ [j] <+: ds ++ [i]) :
    before ++ [j] <+: ds ∨ before = ds ∧ j = i := by
  rcases List.prefix_concat_iff.mp part with whole | shorter
  · exact .inr ⟨List.append_inj_left' whole rfl, List.singleton_inj.mp (List.append_inj_right' whole rfl)⟩
  · exact .inl shorter

theorem wellFormed_nil : WellFormed config total [] where
  interface := List.forall_mem_nil _
  endpoint := List.forall_mem_nil _
  behind _ _ part := absurd (List.prefix_nil.mp part) (List.append_ne_nil_of_right_ne_nil _ (List.cons_ne_nil _ _))
  interfaces := Nat.zero_le _
  endpoints := List.forall_mem_nil _
  counted := List.forall_mem_nil _

theorem wellFormed_interface {ds : List Nat} {i : Nat} (interface : isInterface config i) :
    WellFormed config total (ds ++ [i]) ↔ WellFormed config total ds ∧ Allowed config total ds i := by
  have other : ¬ isEndpoint config i := fun endpoint => isEndpoint_other endpoint interface
  have groups := @settings_interface _ ds i interface
  have main := @mains_interface _ ds i interface
  constructor
  · intro wf
    have counted := wf.counted
    rw [groups, List.dropLast_concat] at counted
    have count := wf.interfaces
    rw [main, List.length_append] at count
    refine ⟨⟨fun j member => wf.interface j (List.mem_append_left _ member),
      fun j member => wf.endpoint j (List.mem_append_left _ member),
      fun before j part => wf.behind before j (part.trans (List.prefix_append _ _)), by omega, fun g member => ?_,
      fun g member => counted g (List.dropLast_subset _ member)⟩, ⟨fun _ => ⟨?_, fun g last => ?_, fun mainly => ?_⟩,
      fun endpoint => absurd endpoint other⟩⟩
    · exact wf.endpoints g (main ▸ List.mem_append_left _ member)
    · exact wf.interface i (List.mem_append_right _ (List.mem_singleton_self i)) interface
    · exact counted g (List.mem_of_getLast? last)
    · rw [if_pos mainly, List.length_singleton] at count
      omega
  · rintro ⟨wf, allowed⟩
    obtain ⟨fits, complete, room⟩ := allowed.interface interface
    constructor
    · intro j member
      rcases List.mem_append.mp member with old | new
      · exact wf.interface j old
      · exact fun _ => List.mem_singleton.mp new ▸ fits
    · intro j member
      rcases List.mem_append.mp member with old | new
      · exact wf.endpoint j old
      · exact fun endpoint => absurd (List.mem_singleton.mp new ▸ endpoint) other
    · intro before j part endpoint
      rcases prefix_snoc part with old | ⟨-, rfl⟩
      · exact wf.behind before j old endpoint
      · exact absurd endpoint other
    · rw [main, List.length_append]
      have old := wf.interfaces
      by_cases mainly : isMain config ⟨i, []⟩
      · rw [if_pos mainly]
        exact room mainly
      · rw [if_neg mainly]
        exact old
    · intro g member
      rw [main] at member
      rcases List.mem_append.mp member with old | new
      · exact wf.endpoints g old
      · split at new
        · rw [List.mem_singleton.mp new]
          exact Nat.zero_le _
        · exact absurd new List.not_mem_nil
    · intro g member
      rw [groups, List.dropLast_concat] at member
      rcases List.eq_nil_or_concat' (settings config ds) with none | ⟨gs, last, split⟩
      · rw [none] at member
        exact absurd member List.not_mem_nil
      · have dropped := wf.counted g
        rw [split] at member dropped
        rw [List.dropLast_concat] at dropped
        rcases List.mem_append.mp member with old | new
        · exact dropped old
        · rw [List.mem_singleton.mp new]
          exact complete last (by rw [split, List.getLast?_concat])

theorem wellFormed_endpoint {ds : List Nat} {i : Nat} (endpoint : isEndpoint config i) :
    WellFormed config total (ds ++ [i]) ↔ WellFormed config total ds ∧ Allowed config total ds i := by
  have other := isEndpoint_other endpoint
  constructor
  · intro wf
    have nonempty := wf.behind ds i (List.prefix_refl _) endpoint
    obtain ⟨gs, g, split⟩ := settings_split nonempty
    have groups := settings_endpoint endpoint split
    have main := mains_split split
    have main' := mains_split groups
    have counted := wf.counted
    have endpoints := wf.endpoints
    rw [groups, List.dropLast_concat] at counted
    rw [main', isMain_more] at endpoints
    refine ⟨⟨fun j member => wf.interface j (List.mem_append_left _ member),
      fun j member => wf.endpoint j (List.mem_append_left _ member),
      fun before j part => wf.behind before j (part.trans (List.prefix_append _ _)), ?_, fun g' member => ?_, ?_⟩,
      ⟨fun interface => absurd interface other, fun _ => ⟨?_, nonempty, fun g' last mainly => ?_⟩⟩⟩
    · rw [← mains_count endpoint split]
      exact wf.interfaces
    · rw [main] at member
      rcases List.mem_append.mp member with old | new
      · exact endpoints g' (List.mem_append_left _ old)
      · split at new
        · rename_i mainly
          have room := endpoints (g.more i) (List.mem_append_right _ (by rw [if_pos mainly]; exact List.mem_singleton_self _))
          rw [List.mem_singleton.mp new]
          rw [Setting.more, List.length_append] at room
          exact Nat.le_of_add_right_le room
        · exact absurd new List.not_mem_nil
    · rw [split, List.dropLast_concat]
      exact counted
    · exact wf.endpoint i (List.mem_append_right _ (List.mem_singleton_self i)) endpoint
    · rw [split, List.getLast?_concat, Option.some.injEq] at last
      subst last
      have room := endpoints (g.more i) (List.mem_append_right _ (by rw [if_pos mainly]; exact List.mem_singleton_self _))
      rw [Setting.more, List.length_append] at room
      exact room
  · rintro ⟨wf, allowed⟩
    obtain ⟨fits, nonempty, room⟩ := allowed.endpoint endpoint
    obtain ⟨gs, g, split⟩ := settings_split nonempty
    have groups := settings_endpoint endpoint split
    have main := mains_split split
    have main' := mains_split groups
    have counted := wf.counted
    have endpoints := wf.endpoints
    rw [split, List.dropLast_concat] at counted
    rw [main] at endpoints
    constructor
    · intro j member
      rcases List.mem_append.mp member with old | new
      · exact wf.interface j old
      · exact fun interface => absurd (List.mem_singleton.mp new ▸ interface) other
    · intro j member
      rcases List.mem_append.mp member with old | new
      · exact wf.endpoint j old
      · exact fun _ => List.mem_singleton.mp new ▸ fits
    · intro before j part endpoint'
      rcases prefix_snoc part with old | ⟨rfl, -⟩
      · exact wf.behind before j old endpoint'
      · exact nonempty
    · rw [mains_count endpoint split]
      exact wf.interfaces
    · intro g' member
      rw [main', isMain_more] at member
      rcases List.mem_append.mp member with old | new
      · exact endpoints g' (List.mem_append_left _ old)
      · split at new
        · rename_i mainly
          rw [List.mem_singleton.mp new, Setting.more, List.length_append]
          exact room g (by rw [split, List.getLast?_concat]) mainly
        · exact absurd new List.not_mem_nil
    · rw [groups, List.dropLast_concat]
      exact counted

theorem wellFormed_other {ds : List Nat} {i : Nat} (interface : ¬ isInterface config i) (endpoint : ¬ isEndpoint config i) :
    WellFormed config total (ds ++ [i]) ↔ WellFormed config total ds ∧ Allowed config total ds i := by
  have groups := @settings_other _ ds i interface endpoint
  have main := @mains_other _ ds i interface endpoint
  constructor
  · intro wf
    refine ⟨⟨fun j member => wf.interface j (List.mem_append_left _ member),
      fun j member => wf.endpoint j (List.mem_append_left _ member),
      fun before j part => wf.behind before j (part.trans (List.prefix_append _ _)), main ▸ wf.interfaces,
      main ▸ wf.endpoints, groups ▸ wf.counted⟩, ⟨fun h => absurd h interface, fun h => absurd h endpoint⟩⟩
  · rintro ⟨wf, -⟩
    refine ⟨fun j member => ?_, fun j member => ?_, fun before j part endpoint' => ?_, main ▸ wf.interfaces,
      main ▸ wf.endpoints, groups ▸ wf.counted⟩
    · rcases List.mem_append.mp member with old | new
      · exact wf.interface j old
      · exact fun h => absurd (List.mem_singleton.mp new ▸ h) interface
    · rcases List.mem_append.mp member with old | new
      · exact wf.endpoint j old
      · exact fun h => absurd (List.mem_singleton.mp new ▸ h) endpoint
    · rcases prefix_snoc part with old | ⟨-, rfl⟩
      · exact wf.behind before j old endpoint'
      · exact absurd endpoint' endpoint

theorem wellFormed_snoc (ds : List Nat) (i : Nat) :
    WellFormed config total (ds ++ [i]) ↔ WellFormed config total ds ∧ Allowed config total ds i := by
  by_cases interface : isInterface config i
  · exact wellFormed_interface interface
  · by_cases endpoint : isEndpoint config i
    · exact wellFormed_endpoint endpoint
    · exact wellFormed_other interface endpoint

theorem wellFormed_before {ds rest : List Nat} (wf : WellFormed config total (ds ++ rest)) : WellFormed config total ds := by
  induction rest using List.reverseRecOn with
  | nil => exact List.append_nil ds ▸ wf
  | append_singleton rest i ih =>
      rw [← List.append_assoc] at wf
      exact ih ((wellFormed_snoc _ i).mp wf).1

theorem Follows.none_before {w : Walk} {ds : List Nat} (follows : Follows config w ds) :
    w.interface_idx < 0 ↔ mains config ds = [] := by
  rw [follows.interface_idx, ← List.length_eq_zero_iff]
  omega

theorem last_main {ds : List Nat} {gs : List Setting} {g : Setting} (split : settings config ds = gs ++ [g])
    (mainly : isMain config g) : mains config ds = gs.filter (isMain config) ++ [g] := by
  rw [mains_split split, if_pos mainly]

theorem tables_last {gs : List Setting} {g : Setting} : (Tables.of (gs ++ [g])).interfaces gs.length = some g.interface := by
  rw [Tables.of]
  dsimp only
  rw [List.getElem?_concat_length]
  rfl

theorem Follows.miscounted {w : Walk} {ds : List Nat} (follows : Follows config w ds) :
    miscounted config w = false ↔ ∀ g, (settings config ds).getLast? = some g → isMain config g →
      g.endpoints.length = bNumEndpoints config g.interface := by
  rw [Usb.miscounted, decide_eq_false_iff_not]
  rcases List.eq_nil_or_concat' (settings config ds) with none | ⟨gs, g, split⟩
  · have empty : mains config ds = [] := by
      rw [mains, none]
      rfl
    have early := follows.none_before.mpr empty
    rw [none]
    exact ⟨fun _ g last => (by cases last), fun _ h => absurd h.1 (by omega)⟩
  · have alternate := follows.alternate
    rw [split, List.getLast?_concat, Option.any_some] at alternate
    by_cases mainly : isMain config g
    · have main := last_main split mainly
      have index : w.interface_idx = (gs.filter (isMain config)).length := by
        rw [follows.interface_idx, main, List.length_append, List.length_singleton]
        omega
      have count := follows.endpoint_idx g (by rw [main, List.getLast?_concat])
      have entry : w.dev.interfaces w.interface_idx.toNat = some g.interface := by
        rw [follows.tables, index, Int.toNat_natCast, main]
        exact tables_last
      rw [mainly] at alternate
      rw [entry, split, List.getLast?_concat]
      simp only [Option.some.injEq, Option.elim_some]
      constructor
      · intro counted last same _
        subst same
        by_contra other
        exact counted ⟨by omega, by rw [alternate]; decide, by omega⟩
      · intro counted wrong
        have same := counted g rfl mainly
        omega
    · rw [Bool.not_eq_true] at mainly
      rw [mainly] at alternate
      rw [split, List.getLast?_concat]
      constructor
      · intro _ last same mainly'
        rw [← Option.some.inj same, mainly] at mainly'
        cases mainly'
      · exact fun _ h => h.2.1 alternate

def Steps (config : Nat → Byte) (total : Nat) (ds : List Nat) (i : Nat) (result : Except Status Walk) : Prop :=
  (Allowed config total ds i ∧ ∃ w, result = .ok w ∧ Follows config w (ds ++ [i])) ∨
    ¬ Allowed config total ds i ∧ ∃ status, result = .error status ∧ status ≠ .success

theorem follows_alternate {w : Walk} {ds : List Nat} {i : Nat} (follows : Follows config w ds)
    (interface : isInterface config i) (alternate : isMain config ⟨i, []⟩ = false) :
    Follows config { w with in_alternate_setting := true } (ds ++ [i]) := by
  have main : mains config (ds ++ [i]) = mains config ds := by
    rw [mains_interface interface, alternate, if_neg Bool.false_ne_true, List.append_nil]
  constructor
  · rw [main]
    exact follows.interface_idx
  · rw [settings_interface interface, List.getLast?_concat, Option.any_some, alternate]
    rfl
  · rw [main]
    exact follows.endpoint_idx
  · rw [main]
    exact follows.tables

theorem tables_interface (gs : List Setting) (i : Nat) :
    { Tables.of gs with interfaces := Function.update (Tables.of gs).interfaces gs.length (some i) } =
      Tables.of (gs ++ [⟨i, []⟩]) := by
  simp only [Tables.of, Tables.mk.injEq]
  constructor
  · funext k
    rcases Nat.lt_trichotomy k gs.length with before | rfl | behind
    · rw [Function.update_of_ne (Nat.ne_of_lt before), List.getElem?_append_left before]
    · rw [Function.update_self, List.getElem?_concat_length]
      rfl
    · have out : (gs ++ [(⟨i, []⟩ : Setting)]).length ≤ k := by
        rw [List.length_append]
        exact behind
      rw [Function.update_of_ne (Nat.ne_of_gt behind), List.getElem?_eq_none (Nat.le_of_lt behind), List.getElem?_eq_none out]
  · funext k j
    rcases Nat.lt_trichotomy k gs.length with before | rfl | behind
    · rw [List.getElem?_append_left before]
    · rw [List.getElem?_concat_length, List.getElem?_eq_none (Nat.le_refl _)]
      rfl
    · have out : (gs ++ [(⟨i, []⟩ : Setting)]).length ≤ k := by
        rw [List.length_append]
        exact behind
      rw [List.getElem?_eq_none (Nat.le_of_lt behind), List.getElem?_eq_none out]

theorem follows_interface {w : Walk} {ds : List Nat} {i : Nat} (follows : Follows config w ds)
    (interface : isInterface config i) (mainly : isMain config ⟨i, []⟩ = true) :
    Follows config
      ⟨w.interface_idx + 1, -1, false,
        { w.dev with interfaces := Function.update w.dev.interfaces (w.interface_idx + 1).toNat (some i) }⟩
      (ds ++ [i]) := by
  have main : mains config (ds ++ [i]) = mains config ds ++ [⟨i, []⟩] := by
    rw [mains_interface interface, if_pos mainly]
  have index : w.interface_idx + 1 = (mains config ds).length := by
    rw [follows.interface_idx]
    omega
  constructor
  · rw [main, List.length_append, List.length_singleton, index]
    dsimp only
    omega
  · rw [settings_interface interface, List.getLast?_concat, Option.any_some, mainly]
    rfl
  · intro g last
    rw [main, List.getLast?_concat, Option.some.injEq] at last
    rw [← last]
    rfl
  · rw [main, index, follows.tables, Int.toNat_natCast]
    exact tables_interface _ _

theorem interfaceDescriptor_steps {w : Walk} {ds : List Nat} {i : Nat} (follows : Follows config w ds)
    (interface : isInterface config i) : Steps config total ds i (interfaceDescriptor config total i w) := by
  have index := follows.interface_idx
  have other : ¬ isEndpoint config i := fun endpoint => isEndpoint_other endpoint interface
  by_cases large : i + INTERFACE_SIZE > total
  · refine .inr ⟨fun allowed => Nat.not_le_of_gt large (allowed.interface interface).1, .invalidData, ?_, by decide⟩
    rw [interfaceDescriptor, if_pos large]
  have fits := Nat.not_lt.mp large
  cases counted : Usb.miscounted config w with
  | true =>
      refine .inr ⟨fun allowed => ?_, .invalidData, ?_, by decide⟩
      · have complete := follows.miscounted.mpr (allowed.interface interface).2.1
        rw [counted] at complete
        cases complete
      · rw [interfaceDescriptor, if_neg large, if_pos counted]
  | false =>
      have complete := follows.miscounted.mp counted
      have unfolded : interfaceDescriptor config total i w =
          if bAlternateSetting config i ≠ 0 then .ok { w with in_alternate_setting := true }
          else if w.interface_idx + 1 ≥ (USB_DEVICE_MAX_INTERFACES : Int) then .error .deviceUnsupported
          else
            .ok
              ⟨w.interface_idx + 1, -1, false,
                { w.dev with interfaces := Function.update w.dev.interfaces (w.interface_idx + 1).toNat (some i) }⟩ := by
        rw [interfaceDescriptor, if_neg large, if_neg (by rw [counted]; exact Bool.false_ne_true)]
      rw [unfolded]
      cases mainly : isMain config ⟨i, []⟩ with
      | false =>
          have alternate : bAlternateSetting config i ≠ 0 := of_decide_eq_false mainly
          refine .inl ⟨⟨fun _ => ⟨fits, complete, fun h => ?_⟩, fun h => absurd h other⟩, _, if_pos alternate,
            follows_alternate follows interface mainly⟩
          rw [mainly] at h
          cases h
      | true =>
          have first : ¬ bAlternateSetting config i ≠ 0 := fun h => h (of_decide_eq_true mainly)
          rw [if_neg first]
          by_cases full : w.interface_idx + 1 ≥ (USB_DEVICE_MAX_INTERFACES : Int)
          · refine .inr ⟨fun allowed => ?_, _, if_pos full, by decide⟩
            have room := (allowed.interface interface).2.2 mainly
            omega
          · refine .inl ⟨⟨fun _ => ⟨fits, complete, fun _ => by omega⟩, fun h => absurd h other⟩, _, if_neg full,
              follows_interface follows interface mainly⟩

theorem tables_endpoint (gs : List Setting) (g : Setting) (i : Nat) :
    { Tables.of (gs ++ [g]) with
      endpoints := Function.update (Tables.of (gs ++ [g])).endpoints gs.length
        (Function.update ((Tables.of (gs ++ [g])).endpoints gs.length) g.endpoints.length (some i)) } =
      Tables.of (gs ++ [g.more i]) := by
  simp only [Tables.of, Tables.mk.injEq]
  have row : ∀ h : Setting, (gs ++ [h])[gs.length]? = some h := fun h => List.getElem?_concat_length
  constructor
  · funext k
    rcases Nat.lt_trichotomy k gs.length with before | rfl | behind
    · rw [List.getElem?_append_left before, List.getElem?_append_left before]
    · rw [row, row]
      rfl
    · rw [List.getElem?_append_right (Nat.le_of_lt behind), List.getElem?_append_right (Nat.le_of_lt behind),
        List.getElem?_eq_none (Nat.sub_pos_of_lt behind), List.getElem?_eq_none (Nat.sub_pos_of_lt behind)]
  · funext k j
    rcases Nat.lt_trichotomy k gs.length with before | rfl | behind
    · rw [Function.update_of_ne (Nat.ne_of_lt before), List.getElem?_append_left before, List.getElem?_append_left before]
    · rw [Function.update_self, row, row]
      simp only [Option.bind_some, Setting.more]
      rcases Nat.lt_trichotomy j g.endpoints.length with before | rfl | behind
      · rw [Function.update_of_ne (Nat.ne_of_lt before), List.getElem?_append_left before]
      · rw [Function.update_self, List.getElem?_concat_length]
      · rw [Function.update_of_ne (Nat.ne_of_gt behind), List.getElem?_eq_none (Nat.le_of_lt behind),
          List.getElem?_append_right (Nat.le_of_lt behind), List.getElem?_eq_none (Nat.sub_pos_of_lt behind)]
    · rw [Function.update_of_ne (Nat.ne_of_gt behind), List.getElem?_append_right (Nat.le_of_lt behind),
        List.getElem?_append_right (Nat.le_of_lt behind), List.getElem?_eq_none (Nat.sub_pos_of_lt behind),
        List.getElem?_eq_none (Nat.sub_pos_of_lt behind)]

theorem follows_skipped {w : Walk} {ds : List Nat} {gs : List Setting} {g : Setting} {i : Nat} (follows : Follows config w ds)
    (endpoint : isEndpoint config i) (split : settings config ds = gs ++ [g]) (alternate : isMain config g = false) :
    Follows config w (ds ++ [i]) := by
  have groups := settings_endpoint endpoint split
  have main : mains config (ds ++ [i]) = mains config ds := by
    rw [mains_split groups, mains_split split, isMain_more, alternate]
    rfl
  constructor
  · rw [main]
    exact follows.interface_idx
  · have old := follows.alternate
    rw [split, List.getLast?_concat, Option.any_some] at old
    rw [groups, List.getLast?_concat, Option.any_some, isMain_more]
    exact old
  · rw [main]
    exact follows.endpoint_idx
  · rw [main]
    exact follows.tables

theorem follows_endpoint {w : Walk} {ds : List Nat} {gs : List Setting} {g : Setting} {i : Nat} (follows : Follows config w ds)
    (endpoint : isEndpoint config i) (split : settings config ds = gs ++ [g]) (mainly : isMain config g = true) :
    Follows config
      { w with
        endpoint_idx := w.endpoint_idx + 1
        dev :=
          { w.dev with
            endpoints := Function.update w.dev.endpoints w.interface_idx.toNat
              (Function.update (w.dev.endpoints w.interface_idx.toNat) (w.endpoint_idx + 1).toNat (some i)) } }
      (ds ++ [i]) := by
  have groups := settings_endpoint endpoint split
  have main := last_main split mainly
  have main' : mains config (ds ++ [i]) = gs.filter (isMain config) ++ [g.more i] := last_main groups mainly
  have index : w.interface_idx = (gs.filter (isMain config)).length := by
    rw [follows.interface_idx, main, List.length_append, List.length_singleton]
    omega
  have count : w.endpoint_idx + 1 = g.endpoints.length := by
    rw [follows.endpoint_idx g (by rw [main, List.getLast?_concat])]
    omega
  constructor
  · rw [main', List.length_append, List.length_singleton]
    dsimp only
    omega
  · have old := follows.alternate
    rw [split, List.getLast?_concat, Option.any_some] at old
    rw [groups, List.getLast?_concat, Option.any_some, isMain_more]
    exact old
  · intro g' last
    rw [main', List.getLast?_concat, Option.some.injEq] at last
    rw [← last, Setting.more, List.length_append, List.length_singleton]
    dsimp only
    omega
  · rw [main', count, index, Int.toNat_natCast, Int.toNat_natCast, follows.tables, main]
    exact tables_endpoint _ _ _

theorem endpointDescriptor_steps {w : Walk} {ds : List Nat} {i : Nat} (follows : Follows config w ds)
    (endpoint : isEndpoint config i) : Steps config total ds i (endpointDescriptor total i w) := by
  have other := isEndpoint_other endpoint
  by_cases early : w.interface_idx < 0
  · refine .inr ⟨fun allowed => (allowed.endpoint endpoint).2.1 (follows.none_before.mp early), _, if_pos early, by decide⟩
  have nonempty : mains config ds ≠ [] := fun empty => early (follows.none_before.mpr empty)
  by_cases large : i + ENDPOINT_SIZE > total
  · refine .inr ⟨fun allowed => Nat.not_le_of_gt large (allowed.endpoint endpoint).1, .invalidData, ?_, by decide⟩
    rw [endpointDescriptor, if_neg early, if_pos large]
  have fits := Nat.not_lt.mp large
  obtain ⟨gs, g, split⟩ := settings_split nonempty
  have alternate := follows.alternate
  rw [split, List.getLast?_concat, Option.any_some] at alternate
  rw [endpointDescriptor, if_neg early, if_neg large]
  cases mainly : isMain config g with
  | false =>
      rw [mainly, Bool.not_false] at alternate
      refine .inl ⟨⟨fun h => absurd h other, fun _ => ⟨fits, nonempty, fun g' last h => ?_⟩⟩, w, if_pos alternate,
        follows_skipped follows endpoint split mainly⟩
      rw [split, List.getLast?_concat, Option.some.injEq] at last
      rw [← last, mainly] at h
      cases h
  | true =>
      rw [mainly, Bool.not_true] at alternate
      have count : w.endpoint_idx + 1 = g.endpoints.length := by
        rw [follows.endpoint_idx g (by rw [last_main split mainly, List.getLast?_concat])]
        omega
      rw [if_neg (by rw [alternate]; exact Bool.false_ne_true)]
      by_cases full : w.endpoint_idx + 1 ≥ (USB_DEVICE_MAX_ENDPOINTS : Int)
      · refine .inr ⟨fun allowed => ?_, _, if_pos full, by decide⟩
        have room := (allowed.endpoint endpoint).2.2 g (by rw [split, List.getLast?_concat]) mainly
        omega
      · refine .inl ⟨⟨fun h => absurd h other, fun _ => ⟨fits, nonempty, fun g' last _ => ?_⟩⟩, _, if_neg full,
          follows_endpoint follows endpoint split mainly⟩
        rw [split, List.getLast?_concat, Option.some.injEq] at last
        rw [← last]
        omega

theorem descriptor_steps {w : Walk} {ds : List Nat} (follows : Follows config w ds) (i : Nat) :
    Steps config total ds i (descriptor config total i w) := by
  by_cases interface : isInterface config i
  · have taken : descriptor config total i w = interfaceDescriptor config total i w := if_pos interface
    rw [taken]
    exact interfaceDescriptor_steps follows interface
  by_cases endpoint : isEndpoint config i
  · have taken : descriptor config total i w = endpointDescriptor total i w := (if_neg interface).trans (if_pos endpoint)
    rw [taken]
    exact endpointDescriptor_steps follows endpoint
  · have taken : descriptor config total i w = .ok w := (if_neg interface).trans (if_neg endpoint)
    have groups := @settings_other _ ds i interface endpoint
    have main := @mains_other _ ds i interface endpoint
    refine .inl ⟨⟨fun h => absurd h interface, fun h => absurd h endpoint⟩, w, taken, ⟨?_, ?_, ?_, ?_⟩⟩
    · rw [main]
      exact follows.interface_idx
    · rw [groups]
      exact follows.alternate
    · rw [main]
      exact follows.endpoint_idx
    · rw [main]
      exact follows.tables

theorem descriptors_walk {fuel i : Nat} {w : Walk} {ds : List Nat} (enough : total ≤ fuel + i)
    (wf : WellFormed config total ds) (follows : Follows config w ds) :
    ((descriptors config total fuel i w).1 = .success ↔
        ∃ rest, Chain config total i rest ∧ WellFormed config total (ds ++ rest)) ∧
      ∀ rest, (descriptors config total fuel i w).1 = .success → Chain config total i rest →
        Follows config (descriptors config total fuel i w).2 (ds ++ rest) := by
  induction fuel generalizing i w ds with
  | zero =>
      have ended : total < i + HEADER_SIZE := by
        rw [HEADER_SIZE]
        omega
      refine ⟨⟨fun _ => ⟨[], .last ended, (List.append_nil ds).symm ▸ wf⟩, fun _ => rfl⟩, fun rest _ chain => ?_⟩
      cases chain with
      | last => exact (List.append_nil ds).symm ▸ follows
      | next more => exact absurd more (Nat.not_le_of_gt ended)
  | succ fuel ih =>
      by_cases more : i + HEADER_SIZE ≤ total
      · by_cases short : bLength config i < HEADER_SIZE
        · have failed : descriptors config total (fuel + 1) i w = (.invalidData, w) := by
            rw [descriptors, if_pos more, if_pos short]
          rw [failed]
          refine ⟨⟨fun h => (by cases h), ?_⟩, fun _ h => (by cases h)⟩
          rintro ⟨rest, chain, -⟩
          cases chain with
          | last ended => exact absurd more (Nat.not_le_of_gt ended)
          | next _ long => exact absurd long (Nat.not_le_of_gt short)
        · have long : 2 ≤ bLength config i := Nat.not_lt.mp short
          rcases descriptor_steps follows i with ⟨allowed, w', taken, follows'⟩ | ⟨refused, status, failed, error⟩
          · have step : descriptors config total (fuel + 1) i w =
                descriptors config total fuel (i + bLength config i) w' := by
              rw [descriptors, if_pos more, if_neg short, taken]
            have wf' := (wellFormed_snoc ds i).mpr ⟨wf, allowed⟩
            have enough : total ≤ fuel + (i + bLength config i) := by omega
            obtain ⟨ends, result⟩ := ih enough wf' follows'
            rw [step]
            constructor
            · rw [ends]
              constructor
              · rintro ⟨rest, chain, whole⟩
                exact ⟨i :: rest, .next more long chain, List.append_cons ds i rest ▸ whole⟩
              · rintro ⟨rest, chain, whole⟩
                cases chain with
                | last ended => exact absurd more (Nat.not_le_of_gt ended)
                | next _ _ chain => exact ⟨_, chain, List.append_cons ds i _ ▸ whole⟩
            · intro rest success chain
              cases chain with
              | last ended => exact absurd more (Nat.not_le_of_gt ended)
              | next _ _ chain => exact List.append_cons ds i _ ▸ result _ success chain
          · have step : descriptors config total (fuel + 1) i w = (status, w) := by
              rw [descriptors, if_pos more, if_neg short, failed]
            rw [step]
            refine ⟨⟨fun h => absurd h error, ?_⟩, fun _ h => absurd h error⟩
            rintro ⟨rest, chain, whole⟩
            cases chain with
            | last ended => exact absurd more (Nat.not_le_of_gt ended)
            | next _ _ chain =>
                have allowed := (wellFormed_snoc ds i).mp (wellFormed_before (List.append_cons ds i _ ▸ whole))
                exact absurd allowed.2 refused
      · have ended := Nat.not_le.mp more
        have step : descriptors config total (fuel + 1) i w = (.success, w) := by
          rw [descriptors, if_neg more]
        rw [step]
        refine ⟨⟨fun _ => ⟨[], .last ended, (List.append_nil ds).symm ▸ wf⟩, fun _ => rfl⟩, fun rest _ chain => ?_⟩
        cases chain with
        | last => exact (List.append_nil ds).symm ▸ follows
        | next more => exact absurd more (Nat.not_le_of_gt ended)

structure Configures (config : Nat → Byte) (total : Nat) (ds : List Nat) : Prop where
  chain : Chain config total 0 ds
  wellFormed : WellFormed config total ds
  announced : (mains config ds).length = bNumInterfaces config

def Tables.empty : Tables := ⟨fun _ => none, fun _ _ => none⟩

theorem follows_start : Follows config ⟨-1, -1, false, .empty⟩ [] where
  interface_idx := rfl
  alternate := rfl
  endpoint_idx g last := by cases last
  tables := rfl

theorem parse_configures (config : Nat → Byte) (total : Nat) :
    ((parse config total .empty).1 = .success ↔ ∃ ds, Configures config total ds) ∧
      ∀ ds, Configures config total ds → (parse config total .empty).2 = .of (mains config ds) := by
  obtain ⟨ends, result⟩ := @descriptors_walk config total total 0 _ [] (Nat.le_refl total) wellFormed_nil follows_start
  rw [parse]
  cases walked : descriptors config total total 0 ⟨-1, -1, false, .empty⟩ with
  | mk status w =>
      rw [walked] at ends result
      dsimp only [List.nil_append] at ends result ⊢
      by_cases success : status = .success
      · have count {ds} (chain : Chain config total 0 ds) : w.interface_idx + 1 = (mains config ds).length := by
          rw [(result ds success chain).interface_idx]
          omega
        rw [if_neg (not_not.mpr success)]
        by_cases announced : w.interface_idx + 1 ≠ bNumInterfaces config
        · rw [if_pos announced]
          have wrong : ¬ ∃ ds, Configures config total ds := by
            rintro ⟨ds, conf⟩
            rw [count conf.chain, conf.announced] at announced
            exact announced rfl
          exact ⟨⟨fun h => (by cases h), fun h => absurd h wrong⟩, fun ds conf => absurd ⟨ds, conf⟩ wrong⟩
        · rw [if_neg announced]
          refine ⟨⟨fun _ => ?_, fun _ => rfl⟩, fun ds conf => (result ds success conf.chain).tables⟩
          obtain ⟨ds, chain, wf⟩ := ends.mp success
          refine ⟨ds, chain, wf, ?_⟩
          have same := not_not.mp announced
          rw [count chain] at same
          exact Int.ofNat_inj.mp same
      · have wrong : ¬ ∃ ds, Configures config total ds := fun ⟨ds, conf⟩ =>
          success (ends.mpr ⟨ds, conf.chain, conf.wellFormed⟩)
        rw [if_pos success]
        exact ⟨⟨fun h => absurd h success, fun h => absurd h wrong⟩, fun ds conf => absurd ⟨ds, conf⟩ wrong⟩

/-- A configuration descriptor is accepted exactly if it is well-formed, and the tables are its interfaces and
endpoints. -/
theorem usb_read_configuration_descriptor_accepts (first second : Status × (Nat → Byte)) (memory : Bool) :
    ((usb_read_configuration_descriptor first second memory .empty).1 = .success ↔
        first.1 = .success ∧ wTotalLength first.2 ≠ 0 ∧ memory ∧ second.1 = .success ∧
          ∃ ds, Configures second.2 (wTotalLength first.2) ds) ∧
      ∀ ds, Configures second.2 (wTotalLength first.2) ds →
        (usb_read_configuration_descriptor first second memory .empty).1 = .success →
          (usb_read_configuration_descriptor first second memory .empty).2 = .of (mains second.2 ds) := by
  obtain ⟨accepted, tables⟩ := parse_configures second.2 (wTotalLength first.2)
  rw [usb_read_configuration_descriptor]
  by_cases header : first.1 = .success
  · rw [if_neg (not_not.mpr header)]
    dsimp only
    by_cases room : wTotalLength first.2 = 0 ∨ ¬ memory
    · rw [if_pos room]
      refine ⟨⟨fun h => (by cases h), fun ⟨_, positive, free, _⟩ => ?_⟩, fun _ _ h => (by cases h)⟩
      exact absurd room (not_or.mpr ⟨positive, not_not.mpr free⟩)
    · rw [if_neg room]
      obtain ⟨positive, free⟩ := not_or.mp room
      by_cases whole : second.1 = .success
      · rw [if_neg (not_not.mpr whole), accepted]
        exact ⟨⟨fun h => ⟨header, positive, not_not.mp free, whole, h⟩, fun h => h.2.2.2.2⟩, fun ds conf _ => tables ds conf⟩
      · rw [if_pos whole]
        exact ⟨⟨fun h => absurd h whole, fun h => absurd h.2.2.2.1 whole⟩, fun _ _ h => absurd h whole⟩
  · rw [if_pos header]
    exact ⟨⟨fun h => absurd h header, fun h => absurd h.1 header⟩, fun _ _ h => absurd h header⟩

structure Tables.Bounded (dev : Tables) (total : Nat) : Prop where
  interfaces : ∀ k i, dev.interfaces k = some i → k < USB_DEVICE_MAX_INTERFACES ∧ i + INTERFACE_SIZE ≤ total
  endpoints : ∀ k j i, dev.endpoints k j = some i →
    k < USB_DEVICE_MAX_INTERFACES ∧ j < USB_DEVICE_MAX_ENDPOINTS ∧ i + ENDPOINT_SIZE ≤ total

structure Walk.Bounded (w : Walk) (total : Nat) : Prop where
  index : w.interface_idx < USB_DEVICE_MAX_INTERFACES
  tables : w.dev.Bounded total

theorem empty_bounded (total : Nat) : Tables.empty.Bounded total := by
  constructor
  · intro k i entry
    cases entry
  · intro k j i entry
    cases entry

theorem interfaceDescriptor_bounded {w w' : Walk} {i : Nat} (bounded : w.Bounded total)
    (ok : interfaceDescriptor config total i w = .ok w') : w'.Bounded total := by
  by_cases large : i + INTERFACE_SIZE > total
  · rw [interfaceDescriptor, if_pos large] at ok
    cases ok
  rw [interfaceDescriptor, if_neg large] at ok
  split at ok
  · cases ok
  · split at ok
    · cases ok
      exact ⟨bounded.index, bounded.tables⟩
    · dsimp only at ok
      split at ok
      · cases ok
      · rename_i room
        cases ok
        refine ⟨Int.not_le.mp room, fun k j entry => ?_, bounded.tables.endpoints⟩
        dsimp only at entry
        by_cases new : k = (w.interface_idx + 1).toNat
        · rw [new, Function.update_self] at entry
          rw [← Option.some.inj entry]
          exact ⟨new ▸ (Int.toNat_lt' (by decide)).mpr (Int.not_le.mp room), Nat.not_lt.mp large⟩
        · rw [Function.update_of_ne new] at entry
          exact bounded.tables.interfaces k j entry

theorem endpointDescriptor_bounded {w w' : Walk} {i : Nat} (bounded : w.Bounded total)
    (ok : endpointDescriptor total i w = .ok w') : w'.Bounded total := by
  have index := bounded.index
  rw [endpointDescriptor] at ok
  split at ok
  · cases ok
  · split at ok
    · cases ok
    · rename_i large
      split at ok
      · cases ok
        exact bounded
      · dsimp only at ok
        split at ok
        · cases ok
        · rename_i room
          cases ok
          refine ⟨bounded.index, bounded.tables.interfaces, fun k j i' entry => ?_⟩
          dsimp only at entry
          by_cases row : k = w.interface_idx.toNat
          · rw [row, Function.update_self] at entry
            by_cases new : j = (w.endpoint_idx + 1).toNat
            · rw [new, Function.update_self] at entry
              rw [← Option.some.inj entry]
              exact ⟨row ▸ (Int.toNat_lt' (by decide)).mpr index,
                new ▸ (Int.toNat_lt' (by decide)).mpr (Int.not_le.mp room), Nat.not_lt.mp large⟩
            · rw [Function.update_of_ne new] at entry
              exact row ▸ bounded.tables.endpoints _ j i' entry
          · rw [Function.update_of_ne row] at entry
            exact bounded.tables.endpoints k j i' entry

theorem descriptor_bounded {w w' : Walk} {i : Nat} (bounded : w.Bounded total)
    (ok : descriptor config total i w = .ok w') : w'.Bounded total := by
  rw [descriptor] at ok
  split at ok
  · exact interfaceDescriptor_bounded bounded ok
  · split at ok
    · exact endpointDescriptor_bounded bounded ok
    · cases ok
      exact bounded

theorem descriptors_bounded {fuel i : Nat} {w : Walk} (bounded : w.Bounded total) :
    (descriptors config total fuel i w).2.Bounded total := by
  induction fuel generalizing i w with
  | zero => exact bounded
  | succ fuel ih =>
      rw [descriptors]
      split
      · split
        · exact bounded
        · cases taken : descriptor config total i w with
          | error status => exact bounded
          | ok w' => exact ih (descriptor_bounded bounded taken)
      · exact bounded

section
variable {config' : Nat → Byte} {w : Walk} {i : Nat} (same : ∀ a < total, config a = config' a)
include same

theorem miscounted_local (bounded : w.Bounded total) : miscounted config w = miscounted config' w := by
  have field : (w.dev.interfaces w.interface_idx.toNat).elim 0 (bNumEndpoints config) =
      (w.dev.interfaces w.interface_idx.toNat).elim 0 (bNumEndpoints config') := by
    cases entry : w.dev.interfaces w.interface_idx.toNat with
    | none => rfl
    | some i =>
        have inside : i + 9 ≤ total := (bounded.tables.interfaces _ i entry).2
        exact congrArg BitVec.toNat (same (i + 4) (by omega))
  rw [miscounted, miscounted, field]

theorem descriptor_local (bounded : w.Bounded total) (more : i + HEADER_SIZE ≤ total) :
    descriptor config total i w = descriptor config' total i w := by
  have header : i + 2 ≤ total := more
  have type : bDescriptorType config i = bDescriptorType config' i :=
    congrArg BitVec.toNat (same (i + 1) (by omega))
  have interface : interfaceDescriptor config total i w = interfaceDescriptor config' total i w := by
    by_cases large : i + INTERFACE_SIZE > total
    · rw [interfaceDescriptor, interfaceDescriptor, if_pos large, if_pos large]
    have fits : i + 9 ≤ total := Nat.not_lt.mp large
    have alternate : bAlternateSetting config i = bAlternateSetting config' i :=
      congrArg BitVec.toNat (same (i + 3) (by omega))
    rw [interfaceDescriptor, interfaceDescriptor, miscounted_local same bounded, alternate]
  rw [descriptor, descriptor, type, interface]

theorem descriptors_local (fuel : Nat) (bounded : w.Bounded total) :
    descriptors config total fuel i w = descriptors config' total fuel i w := by
  induction fuel generalizing i w with
  | zero => rfl
  | succ fuel ih =>
      by_cases more : i + HEADER_SIZE ≤ total
      · have header : i + 2 ≤ total := more
        have length : bLength config i = bLength config' i := congrArg BitVec.toNat (same i (by omega))
        have whole := @descriptor_local config total config' w i same bounded more
        rw [descriptors, descriptors, if_pos more, if_pos more, length, whole]
        split
        · rfl
        · cases taken : descriptor config' total i w with
          | error status => rfl
          | ok w' => exact ih (descriptor_bounded bounded taken)
      · rw [descriptors, descriptors, if_neg more, if_neg more]

end

theorem start_bounded (total : Nat) : Walk.Bounded ⟨-1, -1, false, .empty⟩ total :=
  ⟨by decide, empty_bounded total⟩

theorem parse_bounded (config : Nat → Byte) (total : Nat) : (parse config total .empty).2.Bounded total := by
  have bounded := @descriptors_bounded config total total 0 _ (start_bounded total)
  rw [parse]
  cases walked : descriptors config total total 0 ⟨-1, -1, false, .empty⟩ with
  | mk status w =>
      rw [walked] at bounded
      dsimp only
      split
      · exact bounded.tables
      · split
        · exact bounded.tables
        · exact bounded.tables

theorem parse_local (config : Nat → Byte) (total : Nat) (held : Nat → Byte) :
    parse (fun a => if a < max total 5 then config a else held a) total .empty = parse config total .empty := by
  have same : ∀ a < total, (if a < max total 5 then config a else held a) = config a := fun a inside =>
    if_pos (Nat.lt_of_lt_of_le inside (Nat.le_max_left _ _))
  have announced : (if 4 < max total 5 then config 4 else held 4) = config 4 :=
    if_pos (Nat.le_max_right _ _)
  rw [parse, parse, descriptors_local same total (start_bounded total), bNumInterfaces, bNumInterfaces, announced]

/-- Whatever a device sends, the tables stay in their bounds and point into the buffer, of which nothing behind
`wTotalLength` is read but the number of interfaces. -/
theorem usb_read_configuration_descriptor_bounded (first second : Status × (Nat → Byte)) (memory : Bool) :
    (usb_read_configuration_descriptor first second memory .empty).2.Bounded (wTotalLength first.2) ∧
      ∀ held : Nat → Byte, usb_read_configuration_descriptor first
        (second.1, fun a => if a < max (wTotalLength first.2) 5 then second.2 a else held a) memory .empty =
          usb_read_configuration_descriptor first second memory .empty := by
  constructor
  · rw [usb_read_configuration_descriptor]
    split
    · exact empty_bounded _
    · dsimp only
      split
      · exact empty_bounded _
      · split
        · exact empty_bounded _
        · exact parse_bounded _ _
  · intro held
    rw [usb_read_configuration_descriptor, usb_read_configuration_descriptor]
    dsimp only
    rw [parse_local]

end

end Xinu.Usb
