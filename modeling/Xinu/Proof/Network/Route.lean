import Xinu.Lib.Best
import Xinu.Lib.Runs
import Xinu.Proof.Network.Fragments
import Xinu.System.Route

namespace Xinu
open Lib (Byte Reach)

variable {rttab rttab' : List RtEntry} {entry : RtEntry} {addr : Netaddr} {call : RtCall}

def octetBits (octet : Byte) : List Bool := (List.range 8).map octet.getMsbD

def Netaddr.bits (addr : Netaddr) : List Bool := addr.addr.flatMap octetBits

def Netaddr.Contiguous (mask : Netaddr) : Prop :=
  ∃ ones zeros, mask.bits = List.replicate ones true ++ List.replicate zeros false

def prefixLength (mask : Netaddr) : Nat := (mask.bits.takeWhile id).length

theorem octetLength_bits : ∀ octet : Byte, octetLength 8 octet.toNat = (octetBits octet).count true := by
  decide +kernel

theorem maskLength_bits (mask : Netaddr) : maskLength mask = mask.bits.count true := by
  rw [maskLength, Netaddr.bits, List.count_flatMap]
  congr 1
  apply List.map_congr_left
  intro octet _
  exact octetLength_bits octet

theorem Netaddr.Contiguous.maskLength {mask : Netaddr} (contiguous : mask.Contiguous) :
    Xinu.maskLength mask = prefixLength mask := by
  obtain ⟨ones, zeros, bits⟩ := contiguous
  have front : (List.replicate ones true ++ List.replicate zeros false).takeWhile id = List.replicate ones true := by
    rw [List.takeWhile_append_of_pos (by simp)]
    cases zeros <;> simp [List.replicate_succ]
  rw [maskLength_bits, prefixLength, bits, front]
  simp [List.count_replicate]

theorem zeroMask_length {mask : Netaddr} {n : Nat} (zeros : mask.addr = List.replicate n 0) : prefixLength mask = 0 := by
  cases n with
  | zero => simp [prefixLength, Netaddr.bits, zeros]
  | succ n =>
      have first : octetBits 0 = false :: List.replicate 7 false := by decide
      rw [prefixLength, Netaddr.bits, zeros, List.replicate_succ, List.flatMap_cons, first]
      rfl

def RtEntry.Routes (entry : RtEntry) (addr : Netaddr) : Prop :=
  entry.used = true ∧ netaddrmask addr entry.mask = entry.dst

instance (entry : RtEntry) (addr : Netaddr) : Decidable (entry.Routes addr) := by
  unfold RtEntry.Routes
  infer_instance

theorem rtLookup_argmax (net : Net) (addr : Netaddr) :
    rtLookup net addr = (net.rttab.filter fun entry => entry.Routes addr).argmax RtEntry.masklen := by
  rw [rtLookup]
  induction net.rttab using List.reverseRecOn with
  | nil => rfl
  | append_singleton rttab entry ih =>
      rw [List.foldl_append, List.foldl_cons, List.foldl_nil, List.filter_append, ih, rtBetter.eq_def]
      by_cases routes : entry.Routes addr
      · have single : [entry].filter (fun entry => entry.Routes addr) = [entry] := by simp [routes]
        rw [single, List.argmax_concat,
          if_pos (show entry.used = true ∧ netaddrmask addr entry.mask = entry.dst from routes)]
        cases (rttab.filter fun entry => entry.Routes addr).argmax RtEntry.masklen <;> rfl
      · have gone : [entry].filter (fun entry => entry.Routes addr) = [] := by simp [routes]
        rw [gone, List.append_nil,
          if_neg (show ¬ (entry.used = true ∧ netaddrmask addr entry.mask = entry.dst) from routes)]

/-- What the result of `rtLookup` has to be: a longest match, unless there is none. -/
def LongestMatch (rttab : List RtEntry) (addr : Netaddr) : Option RtEntry → Prop
  | none => ∀ entry ∈ rttab, ¬ entry.Routes addr
  | some entry => entry ∈ rttab ∧ entry.Routes addr ∧
      ∀ other ∈ rttab, other.Routes addr → prefixLength other.mask ≤ prefixLength entry.mask

def Measured (rttab : List RtEntry) : Prop :=
  ∀ entry ∈ rttab, entry.used = true → entry.masklen = prefixLength entry.mask

theorem rtLookup_longest {net : Net} (measured : Measured net.rttab) (addr : Netaddr) :
    LongestMatch net.rttab addr (rtLookup net addr) := by
  rw [rtLookup_argmax]
  cases found : (net.rttab.filter fun entry => entry.Routes addr).argmax RtEntry.masklen with
  | none =>
      rw [List.argmax_eq_none, List.filter_eq_nil_iff] at found
      intro entry member routes
      exact found entry member (decide_eq_true routes)
  | some entry =>
      obtain ⟨member, routes⟩ := List.mem_filter.mp (List.argmax_mem found)
      refine ⟨member, of_decide_eq_true routes, ?_⟩
      intro other member' routes'
      have most := List.le_of_mem_argmax (List.mem_filter.mpr ⟨member', decide_eq_true routes'⟩) found
      rwa [measured entry member (of_decide_eq_true routes).1, measured other member' routes'.1] at most

theorem rtAlloc_free {i : Nat} (found : rtAlloc rttab = some i) :
    ∃ old, rttab[i]? = some old ∧ old.used = false := by
  rw [rtAlloc, List.findIdx?_eq_some_iff_getElem] at found
  obtain ⟨bound, free, -⟩ := found
  exact ⟨rttab[i], List.getElem?_eq_getElem bound, by simpa using free⟩

theorem mem_filled {i : Nat} {fresh : RtEntry} (found : rtAlloc rttab = some i) (member : entry ∈ rttab)
    (used : entry.used = true) : entry ∈ rttab.set i fresh := by
  obtain ⟨old, place, free⟩ := rtAlloc_free found
  obtain ⟨j, bound, here⟩ := List.mem_iff_getElem.mp member
  have other : i ≠ j := by
    rintro rfl
    rw [List.getElem?_eq_getElem bound, here] at place
    cases place
    rw [used] at free
    cases free
  rw [List.mem_iff_getElem]
  refine ⟨j, by rwa [List.length_set], ?_⟩
  rw [List.getElem_set_ne other]
  exact here

theorem fresh_filled {i : Nat} {fresh : RtEntry} (found : rtAlloc rttab = some i) : fresh ∈ rttab.set i fresh := by
  obtain ⟨old, place, -⟩ := rtAlloc_free found
  exact List.mem_set (List.getElem?_eq_some_iff.mp place).1 fresh

theorem Measured.filled {i : Nat} {fresh : RtEntry} (measured : Measured rttab)
    (length : fresh.masklen = prefixLength fresh.mask) : Measured (rttab.set i fresh) := by
  intro entry member used
  rcases List.mem_or_eq_of_mem_set member with before | rfl
  · exact measured entry before used
  · exact length

theorem mem_rtFree {drops : RtEntry → Bool} (member : entry ∈ rttab) (kept : drops entry = false) :
    entry ∈ rtFree rttab drops := by
  rw [rtFree, List.mem_map]
  refine ⟨entry, member, ?_⟩
  rw [kept, Bool.and_false]
  rfl

theorem of_mem_rtFree {drops : RtEntry → Bool} (member : entry ∈ rtFree rttab drops) (used : entry.used = true) :
    entry ∈ rttab ∧ drops entry = false := by
  rw [rtFree, List.mem_map] at member
  obtain ⟨before, member, same⟩ := member
  split at same
  case isTrue =>
    subst same
    cases used
  case isFalse kept =>
    subst same
    rw [used, Bool.true_and, Bool.not_eq_true] at kept
    exact ⟨member, kept⟩

theorem rtFree_routes (rttab : List RtEntry) (drops : RtEntry → Bool) (addr : Netaddr) :
    (rtFree rttab drops).filter (fun entry => entry.Routes addr) =
      (rttab.filter fun entry => entry.Routes addr).filter fun entry => !drops entry := by
  induction rttab with
  | nil => rfl
  | cons entry rest ih =>
      have split : rtFree (entry :: rest) drops =
          (if entry.used && drops entry then { entry with used := false } else entry) :: rtFree rest drops := rfl
      rw [split, List.filter_cons, List.filter_cons, ih]
      by_cases drop : (entry.used && drops entry) = true
      · rw [Bool.and_eq_true] at drop
        have unused : ¬ ({ entry with used := false } : RtEntry).Routes addr := fun routes => by cases routes.1
        by_cases routes : entry.Routes addr <;> simp [drop, unused, routes]
      · by_cases routes : entry.Routes addr
        · have kept : drops entry = false := by simpa [routes.1] using drop
          simp [kept, routes]
        · simp [drop, routes]

theorem rtFree_lookup {net : Net} {drops : RtEntry → Bool}
    (kept : ∀ entry, rtLookup net addr = some entry → drops entry = false) :
    rtLookup { net with rttab := rtFree net.rttab drops } addr = rtLookup net addr := by
  rw [rtLookup_argmax, rtLookup_argmax]
  show ((rtFree net.rttab drops).filter _).argmax RtEntry.masklen = _
  rw [rtFree_routes]
  rw [rtLookup_argmax] at kept
  cases found : (net.rttab.filter fun entry => entry.Routes addr).argmax RtEntry.masklen with
  | none =>
      rw [List.argmax_eq_none] at found
      rw [found]
      rfl
  | some entry =>
      apply Lib.argmax_filter found
      rw [kept entry found]
      rfl

def RtCall.Contiguous : RtCall → Prop
  | .rtAdd _ _ (some mask) _ => mask.Contiguous
  | _ => True

def RtCall.Removes (dst : Netaddr) (nif : Nat) : RtCall → Prop
  | .rtRemove (some dst') => dst' = dst
  | .rtClear (some nif') => nif' = nif
  | _ => False

def RtCall.Removal : RtCall → Prop
  | .rtRemove _ => True
  | .rtClear _ => True
  | _ => False

theorem Measured.rtFree {drops : RtEntry → Bool} (measured : Measured rttab) : Measured (rtFree rttab drops) := by
  intro entry member used
  exact measured entry (of_mem_rtFree member used).1 used

theorem Measured.rtAdd {dst gate mask : Option Netaddr} {nif : Option Nat} (measured : Measured rttab)
    (contiguous : ∀ mask', mask = some mask' → mask'.Contiguous) :
    Measured (rtAdd rttab dst gate mask nif).1 := by
  rw [Xinu.rtAdd.eq_def]
  split
  case h_1 mask' _ =>
    split
    case h_1 => exact measured
    case h_2 => exact measured.filled (contiguous mask' rfl).maskLength
  case h_2 => exact measured

theorem Measured.rtDefault {gate : Option Netaddr} {nif : Option Nat} (measured : Measured rttab) :
    Measured (rtDefault rttab gate nif).1 := by
  rw [Xinu.rtDefault.eq_def]
  split
  case h_1 =>
    simp only
    split
    case isTrue => exact measured
    case isFalse =>
      split
      case h_1 => exact measured
      case h_2 => exact measured.filled (zeroMask_length rfl).symm
  case h_2 => exact measured

theorem Measured.step (measured : Measured rttab) (contiguous : call.Contiguous)
    (action : call.step rttab = some rttab') : Measured rttab' := by
  cases action
  cases call with
  | rtAdd dst gate mask nif =>
      apply measured.rtAdd
      rintro mask' rfl
      exact contiguous
  | rtDefault gate nif => exact measured.rtDefault
  | rtRemove dst =>
      cases dst with
      | none => exact measured
      | some dst => exact measured.rtFree
  | rtClear nif =>
      cases nif with
      | none => exact measured
      | some nif => exact measured.rtFree

theorem rtInit_measured : Measured rtInit := by
  intro entry member used
  rw [List.eq_of_mem_replicate member] at used
  cases used

theorem kept_step (member : entry ∈ rttab) (used : entry.used = true) (kept : ¬ call.Removes entry.dst entry.nif)
    (action : call.step rttab = some rttab') : entry ∈ rttab' := by
  cases action
  cases call with
  | rtAdd dst gate mask nif =>
      show entry ∈ (Xinu.rtAdd rttab dst gate mask nif).1
      rw [Xinu.rtAdd.eq_def]
      split
      case h_1 =>
        split
        case h_1 => exact member
        case h_2 found => exact mem_filled found member used
      case h_2 => exact member
  | rtDefault gate nif =>
      show entry ∈ (Xinu.rtDefault rttab gate nif).1
      rw [Xinu.rtDefault.eq_def]
      split
      case h_1 =>
        simp only
        split
        case isTrue => exact member
        case isFalse =>
          split
          case h_1 => exact member
          case h_2 found => exact mem_filled found member used
      case h_2 => exact member
  | rtRemove dst =>
      cases dst with
      | none => exact member
      | some dst => exact mem_rtFree member (beq_eq_false_iff_ne.mpr kept)
  | rtClear nif =>
      cases nif with
      | none => exact member
      | some nif => exact mem_rtFree member (beq_eq_false_iff_ne.mpr kept)

theorem rtAdd_added {dst mask : Netaddr} {gate : Option Netaddr} {nif : Nat} {added : List RtEntry}
    (ok : rtAdd rttab (some dst) gate (some mask) (some nif) = (added, OK)) :
    ∃ entry ∈ added, entry.used = true ∧ entry.dst = netaddrmask dst mask ∧ entry.mask = mask ∧ entry.nif = nif ∧
      entry.gateway.type = gate.elim 0 Netaddr.type ∧ ∀ gate', gate = some gate' → entry.gateway = gate' := by
  rw [rtAdd.eq_def] at ok
  simp only at ok
  split at ok
  case h_1 => cases congrArg Prod.snd ok
  case h_2 found =>
    cases congrArg Prod.fst ok
    refine ⟨_, fresh_filled found, rfl, rfl, rfl, rfl, ?_, ?_⟩
    · cases gate <;> rfl
    · rintro gate' rfl
      rfl

theorem rtAdd_room {dst mask : Netaddr} {gate : Option Netaddr} {nif : Nat} :
    (rtAdd rttab (some dst) gate (some mask) (some nif)).2 = OK ↔ ∃ entry ∈ rttab, entry.used = false := by
  rw [rtAdd.eq_def]
  simp only
  split
  case h_1 full =>
    rw [rtAlloc, List.findIdx?_eq_none_iff] at full
    constructor
    · intro ok
      exact absurd (show SYSERR = OK from ok) (by decide)
    · rintro ⟨entry, member, free⟩
      have used := full entry member
      rw [free] at used
      cases used
  case h_2 i found =>
    rw [rtAlloc, List.findIdx?_eq_some_iff_getElem] at found
    obtain ⟨inside, free, -⟩ := found
    exact iff_of_true rfl ⟨_, List.getElem_mem inside, Bool.not_eq_true' _ ▸ free⟩

theorem removal_lookup {net : Net} (removal : call.Removal)
    (kept : ∀ entry, rtLookup net addr = some entry → ¬ call.Removes entry.dst entry.nif) :
    rtLookup { net with rttab := (call.result net.rttab).1 } addr = rtLookup net addr := by
  cases call with
  | rtAdd dst gate mask nif => cases removal
  | rtDefault gate nif => cases removal
  | rtRemove dst =>
      cases dst with
      | none => rfl
      | some dst => exact rtFree_lookup fun entry found => beq_eq_false_iff_ne.mpr (kept entry found)
  | rtClear nif =>
      cases nif with
      | none => rfl
      | some nif => exact rtFree_lookup fun entry found => beq_eq_false_iff_ne.mpr (kept entry found)

/-- After every run of calls `rtLookup` finds a longest match, a route can be added when there is room for it and is in
the table until it is removed, and a removal changes nothing where another route is the best match. -/
theorem longest_match {net : Net}
    (reach : Reach RtCall.step (fun _ call => call.Contiguous) rtInit net.rttab) :
    (∀ addr, LongestMatch net.rttab addr (rtLookup net addr)) ∧
    (∀ dst gate mask nif, (rtAdd net.rttab (some dst) gate (some mask) (some nif)).2 = OK ↔
      ∃ entry ∈ net.rttab, entry.used = false) ∧
    (∀ dst gate mask nif added later, rtAdd net.rttab (some dst) gate (some mask) (some nif) = (added, OK) →
      Reach RtCall.step (fun _ call => ¬ call.Removes (netaddrmask dst mask) nif) added later →
        ∃ entry ∈ later, entry.used = true ∧ entry.dst = netaddrmask dst mask ∧ entry.mask = mask ∧
          entry.nif = nif ∧ entry.gateway.type = gate.elim 0 Netaddr.type ∧
            ∀ gate', gate = some gate' → entry.gateway = gate') ∧
    ∀ call : RtCall, call.Removal → ∀ addr,
      (∀ entry, rtLookup net addr = some entry → ¬ call.Removes entry.dst entry.nif) →
        rtLookup { net with rttab := (call.result net.rttab).1 } addr = rtLookup net addr := by
  refine ⟨?_, fun dst gate mask nif => rtAdd_room, ?_, ?_⟩
  · intro addr
    exact rtLookup_longest (reach.invariant rtInit_measured fun _ _ _ measured contiguous action =>
      measured.step contiguous action) addr
  · intro dst gate mask nif added later ok run
    obtain ⟨entry, member, used, dst', mask', nif', gateway⟩ := rtAdd_added ok
    rw [← dst', ← nif'] at run
    have stays : entry ∈ later :=
      run.invariant (P := fun table => entry ∈ table) member fun _ _ _ member kept action =>
        kept_step member used kept action
    exact ⟨entry, stays, used, dst', mask', nif', gateway⟩
  · intro call removal addr kept
    exact removal_lookup removal kept

def defaultRoute : RtCall := .rtDefault (some ⟨ETHER_TYPE_IPv4, [192, 168, 0, 1], by decide⟩) (some 0)

def tenRoute : RtCall :=
  .rtAdd (some ⟨ETHER_TYPE_IPv4, [10, 1, 2, 3], by decide⟩) none
    (some ⟨ETHER_TYPE_IPv4, [255, 0, 0, 0], by decide⟩) (some 1)

def tenRoutes : List RtEntry := (tenRoute.result (defaultRoute.result rtInit).1).1

theorem tenRoutes_reach : Reach RtCall.step (fun _ call => call.Contiguous) rtInit tenRoutes := by
  have default : defaultRoute.Contiguous := trivial
  have ten : tenRoute.Contiguous := ⟨8, 24, by decide⟩
  exact .next (.next .init default rfl) ten rfl

def tenNine : Netaddr := { type := ETHER_TYPE_IPv4, addr := [10, 9, 0, 0], bound := Netaddr.ipv4_fits }
def twoOctets : Netaddr := { type := ETHER_TYPE_IPv4, addr := [255, 255, 0, 0], bound := Netaddr.ipv4_fits }
def inTenNine : Netaddr := { type := ETHER_TYPE_IPv4, addr := [10, 9, 8, 7], bound := Netaddr.ipv4_fits }

def nineRoutes : List RtEntry := (rtAdd tenRoutes (some tenNine) none (some twoOctets) (some 2)).1

def tenZero : Netaddr := { type := ETHER_TYPE_IPv4, addr := [10, 0, 0, 0], bound := Netaddr.ipv4_fits }

def removeTen : RtCall := .rtRemove (some tenZero)

theorem removeTen_keeps (nif : Nat) : ¬ removeTen.Removes tenNine nif := by
  intro same
  exact absurd (show tenZero = tenNine from same) (by decide)

theorem nineRoutes_reach : Reach RtCall.step (fun _ call => call.Contiguous) rtInit nineRoutes := by
  have nine : RtCall.Contiguous (.rtAdd (some tenNine) none (some twoOctets) (some 2)) := ⟨16, 16, by decide⟩
  exact .next tenRoutes_reach nine rfl

theorem longest_match_ten :
    LongestMatch tenRoutes inTenNine (rtLookup { narrow with rttab := tenRoutes } inTenNine) ∧
      (rtAdd tenRoutes (some tenNine) none (some twoOctets) (some 2)).2 = OK ∧
      (∃ entry ∈ (removeTen.result nineRoutes).1, entry.used = true ∧ entry.dst = tenNine ∧ entry.nif = 2) ∧
      rtLookup { narrow with rttab := (removeTen.result nineRoutes).1 } inTenNine =
        rtLookup { narrow with rttab := nineRoutes } inTenNine := by
  obtain ⟨longest, room, added, -⟩ := @longest_match { narrow with rttab := tenRoutes } tenRoutes_reach
  obtain ⟨-, -, -, removed⟩ := @longest_match { narrow with rttab := nineRoutes } nineRoutes_reach
  have ok : (rtAdd tenRoutes (some tenNine) none (some twoOctets) (some 2)).2 = OK :=
    (room tenNine none twoOctets 2).mpr (by decide +kernel)
  have masked : netaddrmask tenNine twoOctets = tenNine := by decide +kernel
  have best : (rtLookup { narrow with rttab := nineRoutes } inTenNine).map RtEntry.dst = some tenNine := by
    decide +kernel
  refine ⟨longest inTenNine, ok, ?_, removed removeTen trivial inTenNine ?_⟩
  · have kept : ¬ removeTen.Removes (netaddrmask tenNine twoOctets) 2 := by
      rw [masked]
      exact removeTen_keeps 2
    obtain ⟨entry, member, used, dst, -, nif, -⟩ :=
      added tenNine none twoOctets 2 nineRoutes _ (Prod.ext rfl ok) (.next .init kept rfl)
    exact ⟨entry, member, used, dst.trans masked, nif⟩
  · intro entry found
    rw [found, Option.map_some, Option.some.injEq] at best
    rw [best]
    exact removeTen_keeps entry.nif

end Xinu
