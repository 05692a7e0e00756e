import Xinu.Proof.Network.Dhcp

namespace Xinu.Dhcp
open Lib (Byte)

variable {state : State} {frame rest tail : List Byte} {o : Options} {n opts : Nat}

theorem u8_drop (i j : Nat) : u8 (frame.drop i) j = u8 frame (i + j) := by
  rw [u8, u8, List.getD_eq_getElem?_getD, List.getD_eq_getElem?_getD, List.getElem?_drop]

theorem options_cons (n : Nat) (opt : Byte) (after : List Byte) (o : Options) :
    options state (n + 1) (opt :: after) o =
      if opt.toNat = DHCP_OPT_END then some o
      else
        match after with
        | [] => none
        | len :: rest =>
            if rest.length ≤ len.toNat then none
            else options state n (rest.drop len.toNat) (o.take state opt.toNat (rest.take len.toNat)) := by
  cases after <;> rfl

theorem optionsAt_options (state : State) (frame : List Byte) (n opts : Nat) (o : Options) :
    (optionsAt state frame n opts o).1 = options state n (frame.drop opts) o := by
  induction n generalizing opts o with
  | zero => rfl
  | succ n ih =>
      rw [optionsAt]
      have tag : u8 (frame.drop opts) 0 = u8 frame (opts + 0) := u8_drop opts 0
      have length : u8 (frame.drop opts) 1 = u8 frame (opts + 1) := u8_drop opts 1
      have size : (frame.drop opts).length = frame.length - opts := List.length_drop
      have behind : ∀ k, (frame.drop opts).drop k = frame.drop (opts + k) := fun k => List.drop_drop
      cases field : frame.drop opts with
      | nil =>
          rw [field, List.length_nil] at size
          rw [if_pos (by omega)]
          rfl
      | cons opt after =>
          rw [field, List.length_cons] at size
          rw [if_neg (by omega), options_cons]
          rw [field] at tag length behind
          rw [Nat.add_zero] at tag
          rw [← tag, ← length]
          change (if opt.toNat = DHCP_OPT_END then _ else _ : Option Options × List Nat).1 = _
          split
          · rfl
          · cases after with
            | nil =>
                rw [List.length_nil] at size
                rw [if_pos (by omega)]
            | cons len after =>
                rw [List.length_cons] at size
                rw [if_neg (by omega)]
                change (if frame.length ≤ opts + 2 + len.toNat then _ else _ : Option Options × List Nat).1 = _
                dsimp only
                split
                · rw [if_pos (by omega)]
                · rw [if_neg (by omega)]
                  have next := behind (2 + len.toNat)
                  have data := behind 2
                  rw [← List.drop_drop] at next
                  change after.drop len.toNat = _ at next
                  change after = _ at data
                  rw [ih, next, data, bytes, Nat.add_assoc]
                  rfl

theorem dataReads_within {opt len p : Nat} (read : p ∈ dataReads opt len opts) : opts ≤ p ∧ p < opts + len := by
  rw [dataReads] at read
  split at read
  · split at read
    · rw [List.mem_singleton] at read
      omega
    · cases read
  · split at read
    · split at read
      case isTrue long =>
        rw [IPv4_ADDR_LEN] at long
        simp only [List.mem_cons, List.not_mem_nil, or_false] at read
        omega
      case isFalse => cases read
    · cases read

theorem optionsAt_within (n : Nat) (start : OPTS_AT ≤ opts) :
    ∀ p ∈ (optionsAt state frame n opts o).2, OPTS_AT ≤ p ∧ p < frame.length := by
  induction n generalizing opts o with
  | zero => exact nofun
  | succ n ih =>
      intro p
      rw [optionsAt]
      split
      · exact nofun
      · split
        · intro read
          rw [List.mem_singleton] at read
          omega
        · split
          · intro read
            rw [List.mem_singleton] at read
            omega
          · dsimp only
            split
            · intro read
              simp only [List.mem_cons, List.not_mem_nil, or_false] at read
              omega
            · intro read
              simp only [List.cons_append, List.mem_cons, List.mem_append] at read
              rcases read with rfl | rfl | read | read
              · omega
              · omega
              · have := dataReads_within read
                omega
              · exact ih (by omega) p read

theorem optionsAt_fuel (n m : Nat) (opts : Nat) (o : Options) (enough : frame.length - opts ≤ n)
    (enough' : frame.length - opts ≤ m) : optionsAt state frame n opts o = optionsAt state frame m opts o := by
  have past : ∀ k, frame.length ≤ opts → optionsAt state frame k opts o = (none, []) := by
    intro k last
    cases k with
    | zero => rfl
    | succ k => rw [optionsAt, if_pos last]
  induction n generalizing m opts o with
  | zero => rw [past 0 (by omega), past m (by omega)]
  | succ n ih =>
      cases m with
      | zero => rw [past 0 (by omega), past (n + 1) (by omega)]
      | succ m =>
          rw [optionsAt, optionsAt]
          dsimp only
          rw [ih m (opts + 2 + u8 frame (opts + 1)) _ (by omega) (by omega)]
          intro k last
          cases k with
          | zero => rfl
          | succ k => rw [optionsAt, if_pos last]

inductive Item
  | pad
  | option (tag : Byte) (data : List Byte)

def Item.octets : Item → List Byte
  | .pad => [0]
  | .option tag data => tag :: BitVec.ofNat 8 data.length :: data

def Item.Plain : Item → Prop
  | .pad => True
  | .option tag data => tag ≠ 0 ∧ tag ≠ 255 ∧ data.length < 256

def Item.Typed : Item → Prop
  | .pad => True
  | .option tag data =>
      (tag.toNat = DHCP_OPT_MSGTYPE → data.length = 1) ∧ (tag.toNat = DHCP_OPT_SUBNET → data.length = 4) ∧
        (tag.toNat = DHCP_OPT_GATEWAY → 4 ∣ data.length ∧ data ≠ []) ∧
          (tag.toNat = DHCP_OPT_SERVER → data.length = 4)

def encode (items : List Item) : List Byte := items.flatMap Item.octets

def optionsIn : List Item → List (Nat × List Byte)
  | [] => []
  | .pad :: items => optionsIn items
  | .option tag data :: items => (tag.toNat, data) :: optionsIn items

def Truncated (tail : List Byte) : Prop :=
  tail = [] ∨ ∃ tag : Byte, tag ≠ 0 ∧ tag ≠ 255 ∧
    (tail = [tag] ∨ ∃ (len : Byte) (data : List Byte), tail = tag :: len :: data ∧ data.length < len.toNat)

/-- No Pad is left over when they are taken two by two. -/
def evenPads : List Item → Bool
  | [] => true
  | .option _ _ :: items => evenPads items
  | .pad :: .pad :: items => evenPads items
  | .pad :: _ => false

theorem options_nil (n : Nat) (o : Options) : options state n [] o = none := by
  cases n <;> rfl

theorem options_fuel (field : List Byte) (o : Options) (enough : field.length ≤ n) :
    options state n field o = options state field.length field o := by
  have same : optionsAt state field n 0 o = optionsAt state field field.length 0 o :=
    optionsAt_fuel n field.length 0 o (by omega) (by omega)
  have first := optionsAt_options state field n 0 o
  have second := optionsAt_options state field field.length 0 o
  rw [List.drop_zero] at first second
  rw [← first, ← second, same]

theorem options_option {tag : Byte} {data : List Byte} (field : List Byte) (o : Options) (last : tag ≠ 255)
    (fits : data.length < 256) :
    options state (n + 1) (tag :: BitVec.ofNat 8 data.length :: (data ++ field)) o =
      options state n field (o.take state tag.toNat data) := by
  have notEnd : tag.toNat ≠ DHCP_OPT_END := fun same => last (BitVec.eq_of_toNat_eq same)
  have len : (BitVec.ofNat 8 data.length).toNat = data.length := by
    rw [BitVec.toNat_ofNat, Nat.mod_eq_of_lt fits]
  rw [options_cons, if_neg notEnd]
  dsimp only
  rw [len, List.length_append, List.drop_left, List.take_left]
  cases field with
  | nil => rw [if_pos (by simp), options_nil]
  | cons byte field => rw [if_neg (by simp)]

theorem options_aligned (items : List Item) (even : evenPads items = true) (plain : ∀ item ∈ items, item.Plain)
    (n : Nat) (o : Options) (enough : (encode items ++ tail).length ≤ n) :
    options state n (encode items ++ tail) o =
      options state tail.length tail ((optionsIn items).foldl (fun o x => o.take state x.1 x.2) o) := by
  fun_induction evenPads items generalizing n o with
  | case1 => exact options_fuel tail o enough
  | case2 tag data items ih =>
      obtain ⟨⟨-, last, fits⟩, plain⟩ := List.forall_mem_cons.mp plain
      have octets : encode (.option tag data :: items) ++ tail =
          tag :: BitVec.ofNat 8 data.length :: (data ++ (encode items ++ tail)) := by
        simp [encode, Item.octets]
      rw [octets] at enough ⊢
      simp only [List.length_cons, List.length_append] at enough
      obtain ⟨m, rfl⟩ : ∃ m, n = m + 1 := ⟨n - 1, by omega⟩
      rw [options_option _ _ last fits]
      exact ih even plain m _ (by rw [List.length_append]; omega)
  | case3 items ih =>
      have plain := (List.forall_mem_cons.mp (List.forall_mem_cons.mp plain).2).2
      have octets : encode (.pad :: .pad :: items) ++ tail =
          0 :: BitVec.ofNat 8 ([] : List Byte).length :: ([] ++ (encode items ++ tail)) := by
        simp [encode, Item.octets]
      rw [octets] at enough ⊢
      simp only [List.length_cons, List.length_append] at enough
      obtain ⟨m, rfl⟩ : ∃ m, n = m + 1 := ⟨n - 1, by omega⟩
      rw [options_option _ _ (by decide) (by decide)]
      exact ih even plain m o (by rw [List.length_append]; omega)
  | case4 => cases even

theorem options_truncated (truncated : Truncated tail) (o : Options) : options state tail.length tail o = none := by
  rcases truncated with rfl | ⟨tag, -, last, rfl | ⟨len, data, rfl, short⟩⟩
  · rfl
  all_goals
    have notEnd : tag.toNat ≠ DHCP_OPT_END := fun same => last (BitVec.eq_of_toNat_eq same)
    rw [List.length_cons, options_cons, if_neg notEnd]
  exact if_pos (by omega)

theorem lastOption_congr {p q : Nat × List Byte → Bool} {os : List (Nat × List Byte)}
    (same : ∀ x ∈ os, p x = q x) : lastOption p os = lastOption q os := by
  induction os with
  | nil => rfl
  | cons x os ih =>
      obtain ⟨first, rest⟩ := List.forall_mem_cons.mp same
      rw [lastOption, lastOption, first, ih rest]

theorem lastOption_none {p : Nat × List Byte → Bool} {os : List (Nat × List Byte)} :
    lastOption p os = none ↔ ∀ x ∈ os, p x = false := by
  induction os with
  | nil => simp [lastOption]
  | cons x os ih =>
      rw [lastOption, Option.or_eq_none_iff, ih, List.forall_mem_cons, And.comm]
      cases p x <;> simp

theorem lastOption_and {p : Nat × List Byte → Bool} {r : List Byte → Bool} {os : List (Nat × List Byte)} {d : List Byte}
    (found : lastOption p os = some d) (meets : r d = true) : lastOption (fun x => p x && r x.2) os = some d := by
  induction os with
  | nil => cases found
  | cons x os ih =>
      rw [lastOption, Option.or_eq_some_iff] at found
      rw [lastOption]
      rcases found with found | ⟨none, found⟩
      · rw [ih found]
        rfl
      · have absent : lastOption (fun x => p x && r x.2) os = .none := by
          rw [lastOption_none] at none ⊢
          intro y member
          rw [none y member, Bool.false_and]
        split at found <;> cases found
        rename_i holds
        rw [absent, holds, meets]
        rfl

theorem lastOption_filter {p : Nat × List Byte → Bool} {r : List Byte → Bool} {os : List (Nat × List Byte)}
    (last : ∀ x ∈ os, p x = true → r x.2 = true → ∃ d, lastOption p os = some d ∧ r d = true) :
    lastOption (fun x => p x && r x.2) os = (lastOption p os).filter r := by
  cases found : lastOption (fun x => p x && r x.2) os with
  | none =>
      symm
      rw [Option.filter_eq_none_iff]
      intro d some meets
      rw [lastOption_and some meets] at found
      cases found
  | some d =>
      obtain ⟨x, member, meets, rfl⟩ := lastOption_mem found
      rw [Bool.and_eq_true] at meets
      obtain ⟨d, some, meets'⟩ := last x member meets.1 meets.2
      rw [lastOption_and some meets'] at found
      cases found
      rw [some, Option.filter_some_pos meets']

def lastData (tag : Nat) (items : List Item) : Option (List Byte) :=
  lastOption (fun x => x.1 = tag) (optionsIn items)

def expected (state : State) (items : List Item) : Options :=
  { found_msg := ((lastData DHCP_OPT_MSGTYPE items).filter fun d => state.awaits (u8 d 0)).map (u8 · 0)
    mask := lastData DHCP_OPT_SUBNET items
    gateway := (lastData DHCP_OPT_GATEWAY items).map (·.take 4)
    serverIpv4Addr := ((lastData DHCP_OPT_SERVER items).map (u32 · 0)).getD 0 }

/-- If the client waits for one of the message types, it waits for the last one. -/
def LastAwaited (state : State) (items : List Item) : Prop :=
  ∀ d, (DHCP_OPT_MSGTYPE, d) ∈ optionsIn items → state.awaits (u8 d 0) = true →
    ∃ last, lastData DHCP_OPT_MSGTYPE items = some last ∧ state.awaits (u8 last 0) = true

theorem mem_optionsIn {items : List Item} {x : Nat × List Byte} (member : x ∈ optionsIn items) :
    ∃ tag data, .option tag data ∈ items ∧ x = (tag.toNat, data) := by
  fun_induction optionsIn items with
  | case1 => cases member
  | case2 items ih =>
      obtain ⟨tag, data, inside, same⟩ := ih member
      exact ⟨tag, data, List.mem_cons_of_mem _ inside, same⟩
  | case3 tag data items ih =>
      rcases List.mem_cons.mp member with rfl | member
      · exact ⟨tag, data, List.mem_cons_self, rfl⟩
      · obtain ⟨tag', data', inside, same⟩ := ih member
        exact ⟨tag', data', List.mem_cons_of_mem _ inside, same⟩

section
variable {items : List Item} (typed : ∀ item ∈ items, item.Typed)
include typed

theorem typed_data {x : Nat × List Byte} (member : x ∈ optionsIn items) :
    (x.1 = DHCP_OPT_MSGTYPE → x.2.length = 1) ∧ (x.1 = DHCP_OPT_SUBNET → x.2.length = 4) ∧
      (x.1 = DHCP_OPT_GATEWAY → 4 ∣ x.2.length ∧ x.2 ≠ []) ∧ (x.1 = DHCP_OPT_SERVER → x.2.length = 4) := by
  obtain ⟨tag, data, inside, rfl⟩ := mem_optionsIn member
  exact typed _ inside

theorem holds_typed {tag : Nat} (known : tag = DHCP_OPT_SUBNET ∨ tag = DHCP_OPT_GATEWAY ∨ tag = DHCP_OPT_SERVER) :
    lastOption (holds tag) (optionsIn items) = lastData tag items := by
  apply lastOption_congr
  intro x member
  obtain ⟨-, subnet, router, server⟩ := typed_data typed member
  have long : x.1 = tag → IPv4_ADDR_LEN ≤ x.2.length := by
    rintro rfl
    rcases known with same | same | same
    · exact Nat.le_of_eq (subnet same).symm
    · obtain ⟨whole, some⟩ := router same
      exact Nat.le_of_dvd (List.length_pos_iff.mpr some) whole
    · exact Nat.le_of_eq (server same).symm
  rw [holds]
  exact decide_eq_decide.mpr ⟨And.left, fun same => ⟨same, long same⟩⟩

theorem tells_typed : lastOption (tells state) (optionsIn items) =
    lastOption (fun x => decide (x.1 = DHCP_OPT_MSGTYPE) && state.awaits (u8 x.2 0)) (optionsIn items) := by
  apply lastOption_congr
  intro x member
  have length := (typed_data typed member).1
  by_cases type : x.1 = DHCP_OPT_MSGTYPE
  · simp [tells, type, length type]
  · simp [tells, type]

theorem mask_typed : (lastData DHCP_OPT_SUBNET items).map (bytes · 0 IPv4_ADDR_LEN) = lastData DHCP_OPT_SUBNET items := by
  cases found : lastData DHCP_OPT_SUBNET items with
  | none => rfl
  | some d =>
      obtain ⟨x, member, tag, rfl⟩ := lastOption_mem found
      have length := (typed_data typed member).2.1 (of_decide_eq_true tag)
      rw [Option.map_some, bytes, List.drop_zero, List.take_of_length_le (Nat.le_of_eq length)]

theorem fold_expected :
    (optionsIn items).foldl (fun o x => o.take state x.1 x.2) Options.none = expected state items ↔
      LastAwaited state items := by
  obtain ⟨found, mask, gateway, server⟩ := @foldl_take state (optionsIn items) Options.none
  rw [tells_typed typed] at found
  rw [holds_typed typed (.inl rfl), mask_typed typed] at mask
  rw [holds_typed typed (.inr (.inl rfl))] at gateway
  rw [holds_typed typed (.inr (.inr rfl))] at server
  replace found := found.trans Option.or_none
  replace mask := mask.trans Option.or_none
  replace gateway := gateway.trans Option.or_none
  constructor
  · intro same d member awaited
    rw [same] at found
    have some : lastOption (fun x => decide (x.1 = DHCP_OPT_MSGTYPE) && state.awaits (u8 x.2 0)) (optionsIn items) ≠ none := by
      intro absent
      have missed := lastOption_none.mp absent _ member
      rw [awaited] at missed
      cases missed
    have filtered : (lastData DHCP_OPT_MSGTYPE items).filter (fun d => state.awaits (u8 d 0)) ≠ none := by
      intro absent
      rw [expected, absent, Option.map_none] at found
      exact some (Option.map_eq_none_iff.mp found.symm)
    obtain ⟨last, here⟩ := Option.ne_none_iff_exists'.mp filtered
    rw [Option.filter_eq_some_iff] at here
    exact ⟨last, here⟩
  · intro last
    have filtered := @lastOption_filter (fun x => decide (x.1 = DHCP_OPT_MSGTYPE)) (fun d => state.awaits (u8 d 0))
      (optionsIn items) (by
        intro x member type awaited
        have tag := of_decide_eq_true type
        exact last x.2 (by rw [← tag]; exact member) awaited)
    rw [filtered] at found
    generalize (optionsIn items).foldl (fun o x => o.take state x.1 x.2) Options.none = left at *
    obtain ⟨found_msg, mask', gateway', server'⟩ := left
    simp only at found mask gateway server
    rw [found, mask, gateway, server]
    rfl

end

/-- The loop comes to its end, it reads inside the packet, and where no Pad is left over it rejects a field
without an End and gets from another what it says, if the last message type is one that it waits for or none
is. -/
theorem dhcp_options (state : State) (frame : List Byte) :
    (∀ n, frame.length - OPTS_AT ≤ n → optionsAt state frame n OPTS_AT Options.none =
      optionsAt state frame (frame.length - OPTS_AT) OPTS_AT Options.none) ∧
    (∀ p ∈ (optionsAt state frame (frame.length - OPTS_AT) OPTS_AT Options.none).2, OPTS_AT ≤ p ∧ p < frame.length) ∧
    ∀ items tail, frame.drop OPTS_AT = encode items ++ tail → (∀ item ∈ items, item.Plain) → evenPads items = true →
      (Truncated tail → (optionsAt state frame (frame.length - OPTS_AT) OPTS_AT Options.none).1 = none) ∧
      ∀ rest, tail = 255 :: rest → (∀ item ∈ items, item.Typed) →
        ((optionsAt state frame (frame.length - OPTS_AT) OPTS_AT Options.none).1 = some (expected state items) ↔
          LastAwaited state items) := by
  refine ⟨fun n enough => optionsAt_fuel n _ _ _ enough (Nat.le_refl _), optionsAt_within _ (Nat.le_refl _), ?_⟩
  intro items tail field plain even
  have enough : (encode items ++ tail).length ≤ frame.length - OPTS_AT :=
    Nat.le_of_eq (by rw [← field, List.length_drop])
  rw [optionsAt_options, field, options_aligned items even plain _ _ enough]
  refine ⟨fun truncated => options_truncated truncated _, ?_⟩
  rintro rest rfl typed
  rw [List.length_cons, options_cons, if_pos (by decide), Option.some.injEq]
  exact fold_expected typed

def paddedOffer : List Byte := List.replicate OPTS_AT 0 ++ [0, 0, 53, 1, 2, 255]

theorem dhcp_options_padded :
    (optionsAt .selecting paddedOffer (paddedOffer.length - OPTS_AT) OPTS_AT Options.none).1 =
      some (expected .selecting [.pad, .pad, .option 53 [2]]) := by
  have field : paddedOffer.drop OPTS_AT = encode [.pad, .pad, .option 53 [2]] ++ [255] := by decide
  have plain : ∀ item ∈ [Item.pad, .pad, .option 53 [2]], item.Plain := by
    simp [Item.Plain]
  have typed : ∀ item ∈ [Item.pad, .pad, .option 53 [2]], item.Typed := by
    simp [Item.Typed, DHCP_OPT_SUBNET, DHCP_OPT_GATEWAY, DHCP_OPT_SERVER]
  exact (((dhcp_options .selecting paddedOffer).2.2 _ _ field plain rfl).2 [] rfl typed).mpr
    fun d member _ => ⟨[2], rfl, rfl⟩

theorem dhcp_options_pad :
    encode [.pad, .option 53 [2]] ++ [255] = [0, 53, 1, 2, 255] ∧
      (∀ item ∈ [Item.pad, .option 53 [2]], item.Plain ∧ item.Typed) ∧
      LastAwaited .selecting [.pad, .option 53 [2]] ∧
      (expected .selecting [.pad, .option 53 [2]]).found_msg = some DHCPOFFER ∧
      (optionsAt .selecting (List.replicate OPTS_AT 0 ++ [0, 53, 1, 2, 255]) 5 OPTS_AT Options.none).1 = none := by
  refine ⟨by decide, ?_, fun d member _ => ⟨[2], rfl, rfl⟩, rfl, ?_⟩
  · simp [Item.Plain, Item.Typed, DHCP_OPT_SUBNET, DHCP_OPT_GATEWAY, DHCP_OPT_SERVER]
  · rw [optionsAt_options]
    rfl

end Xinu.Dhcp
