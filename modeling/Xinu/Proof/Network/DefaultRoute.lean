import Xinu.Proof.Network.Route

namespace Xinu

variable {rttab after : List RtEntry} {entry : RtEntry} {gate addr : Netaddr} {nif : Nat}

def zeroMask (gate : Netaddr) : Netaddr :=
  { type := gate.type, addr := List.replicate gate.addr.length 0
    bound := gate.replicate_fits }

def RtEntry.isDefault (gate : Netaddr) (entry : RtEntry) : Bool := entry.used && entry.mask == zeroMask gate

structure Unmatched (rttab : List RtEntry) (gate addr : Netaddr) : Prop where
  type : addr.type = gate.type
  length : addr.addr.length = gate.addr.length
  others : ∀ entry ∈ rttab, entry.Routes addr → entry.isDefault gate = true

/-- There is one default entry, and it decides where the addresses go that no other entry matches. -/
def DefaultTo (net : Net) (gate : Netaddr) (nif : Nat) : Prop :=
  (∀ addr, Unmatched net.rttab gate addr →
    ∃ entry, rtLookup net addr = some entry ∧ entry.gateway = gate ∧ entry.nif = nif) ∧
  (net.rttab.filter fun entry => entry.isDefault gate).length = 1

theorem netaddrmask_zero (type : addr.type = gate.type) (length : addr.addr.length = gate.addr.length) :
    netaddrmask addr (zeroMask gate) = zeroMask gate := by
  have zeros : ∀ octets : List Lib.Byte,
      List.zipWith (· &&& ·) octets (List.replicate octets.length 0) = List.replicate octets.length 0 := by
    intro octets
    induction octets with
    | nil => rfl
    | cons octet octets ih =>
        rw [List.length_cons, List.replicate_succ, List.zipWith_cons_cons, ih]
        simp
  have same : ¬ (addr.type ≠ (zeroMask gate).type ∨ addr.addr.length ≠ (zeroMask gate).addr.length) := by
    simp [zeroMask, type, length]
  rw [netaddrmask, if_neg same]
  simp only [zeroMask, type, ← length, zeros]

theorem Unmatched.lookup {net : Net} (unmatched : Unmatched net.rttab gate addr)
    (single : (net.rttab.filter fun entry => entry.isDefault gate) = [entry]) :
    rtLookup net addr = if entry.dst = zeroMask gate then some entry else none := by
  have routes : (net.rttab.filter fun entry => entry.Routes addr) = [entry].filter fun entry => entry.Routes addr := by
    rw [← single, List.filter_filter]
    apply List.filter_congr
    intro other member
    by_cases matched : other.Routes addr
    · simp [matched, unmatched.others other member matched]
    · simp [matched]
  have default : entry.isDefault gate = true :=
    (List.mem_filter.mp (single ▸ List.mem_singleton_self entry : entry ∈ net.rttab.filter _)).2
  rw [RtEntry.isDefault, Bool.and_eq_true, beq_iff_eq] at default
  have target : entry.Routes addr ↔ entry.dst = zeroMask gate := by
    rw [RtEntry.Routes, default.2, netaddrmask_zero unmatched.type unmatched.length]
    exact ⟨fun matched => matched.2.symm, fun matched => ⟨default.1, matched.symm⟩⟩
  rw [rtLookup_argmax, routes]
  by_cases matched : entry.dst = zeroMask gate
  · simp [target.mpr matched, matched]
  · simp [target, matched]

theorem rtDefault_ok (ok : rtDefault rttab (some gate) (some nif) = (after, OK)) :
    ((rttab.filter fun entry => entry.isDefault gate) ≠ [] ∧ after = rttab) ∨
    ((rttab.filter fun entry => entry.isDefault gate) = [] ∧
      (after.filter fun entry => entry.isDefault gate) =
        [{ used := true, masklen := 0, dst := zeroMask gate, gateway := gate, mask := zeroMask gate, nif }]) := by
  rw [rtDefault.eq_def] at ok
  change (if rttab.any (fun entry => entry.isDefault gate) then (rttab, OK) else _) = _ at ok
  split at ok
  case isTrue found =>
    rw [Prod.mk.injEq] at ok
    refine .inl ⟨fun none => ?_, ok.1.symm⟩
    obtain ⟨entry, member, default⟩ := List.any_eq_true.mp found
    exact List.filter_eq_nil_iff.mp none entry member default
  case isFalse missing =>
    have none : (rttab.filter fun entry => entry.isDefault gate) = [] := by
      rw [List.filter_eq_nil_iff]
      intro entry member default
      exact missing (List.any_eq_true.mpr ⟨entry, member, default⟩)
    refine .inr ⟨none, ?_⟩
    split at ok
    case h_1 => cases congrArg Prod.snd ok
    case h_2 i found =>
      cases congrArg Prod.fst ok
      obtain ⟨old, place, -⟩ := rtAlloc_free found
      obtain ⟨bound, here⟩ := List.getElem?_eq_some_iff.mp place
      rw [List.set_eq_take_append_cons_drop, if_pos bound]
      have before : ((rttab.take i).filter fun entry => entry.isDefault gate) = [] := by
        rw [List.filter_eq_nil_iff] at none ⊢
        exact fun entry member => none entry (List.mem_of_mem_take member)
      have behind : ((rttab.drop (i + 1)).filter fun entry => entry.isDefault gate) = [] := by
        rw [List.filter_eq_nil_iff] at none ⊢
        exact fun entry member => none entry (List.mem_of_mem_drop member)
      rw [List.filter_append, List.filter_cons, before, behind]
      simp [RtEntry.isDefault, zeroMask]

/-- A call that returns `OK` sets the default route just when there was none, or one that already was the same
or that no address comes to. -/
theorem default_route {net : Net} (ok : rtDefault net.rttab (some gate) (some nif) = (after, OK)) :
    DefaultTo { net with rttab := after } gate nif ↔
      (net.rttab.filter fun entry => entry.isDefault gate) = [] ∨
      ∃ entry, (net.rttab.filter fun entry => entry.isDefault gate) = [entry] ∧
        ((entry.dst = zeroMask gate ∧ entry.gateway = gate ∧ entry.nif = nif) ∨
          ∀ addr, ¬ Unmatched net.rttab gate addr) := by
  rcases rtDefault_ok ok with ⟨some, rfl⟩ | ⟨none, fresh⟩
  · constructor
    · rintro ⟨lookup, single⟩
      right
      obtain ⟨entry, single⟩ := List.length_eq_one_iff.mp single
      refine ⟨entry, single, ?_⟩
      by_cases left : ∃ addr, Unmatched net.rttab gate addr
      · left
        obtain ⟨addr, unmatched⟩ := left
        obtain ⟨found, result, gateway, interface⟩ := lookup addr unmatched
        rw [unmatched.lookup single] at result
        split at result
        case isTrue dst =>
          cases result
          exact ⟨dst, gateway, interface⟩
        case isFalse => cases result
      · exact .inr fun addr unmatched => left ⟨addr, unmatched⟩
    · rintro (none | ⟨entry, single, same⟩)
      · exact absurd none some
      · refine ⟨?_, by rw [single]; rfl⟩
        intro addr unmatched
        rcases same with ⟨dst, gateway, interface⟩ | covered
        · refine ⟨entry, ?_, gateway, interface⟩
          rw [unmatched.lookup single, if_pos dst]
        · exact absurd unmatched (covered addr)
  · refine iff_of_true ⟨?_, by rw [fresh]; rfl⟩ (.inl none)
    intro addr unmatched
    exact ⟨_, (unmatched.lookup fresh).trans (if_pos rfl), rfl, rfl⟩

def gateway (last : Lib.Byte) : Netaddr := ⟨ETHER_TYPE_IPv4, [192, 168, 0, last], Nat.le_of_ble_eq_true rfl⟩

theorem default_route_first : DefaultTo { narrow with rttab := (rtDefault rtInit (some (gateway 1)) (some 0)).1 } (gateway 1) 0 :=
  (@default_route _ (gateway 1) 0 { narrow with rttab := rtInit } rfl).mpr (.inl (by decide))

theorem default_route_kept :
    let rttab := (rtDefault rtInit (some (gateway 1)) (some 0)).1
    rtDefault rttab (some (gateway 2)) (some 1) = (rttab, OK) ∧
      ¬ DefaultTo { narrow with rttab } (gateway 2) 1 := by
  have first : (rtDefault rtInit (some (gateway 1)) (some 0)).1.filter (fun entry => entry.isDefault (gateway 2)) =
      [{ used := true, masklen := 0, dst := zeroMask (gateway 2), gateway := gateway 1, mask := zeroMask (gateway 2),
          nif := 0 }] := rfl
  refine ⟨rfl, fun updated => ?_⟩
  have alone : Unmatched (rtDefault rtInit (some (gateway 1)) (some 0)).1 (gateway 2) (gateway 9) :=
    ⟨rfl, rfl, by decide⟩
  obtain ⟨entry, lookup, gateway, -⟩ := updated.1 (gateway 9) alone
  rw [alone.lookup first, if_pos rfl] at lookup
  cases lookup
  cases gateway

end Xinu
