import Xinu.System.Arp
import Mathlib.Tactic.SplitIfs

namespace Xinu.Arp

variable {s s' : Arp} {op : Op} {i j tid : Nat} {praddr : Netaddr} {entry : Entry}

section
variable {thread : Nat → Lookup} {msg m : Int} {waiting : List Nat} {slots : Nat → Option Int}

theorem notify_off (off : tid ∉ waiting) : (notify thread msg waiting slots).1 tid = slots tid := by
  induction waiting generalizing slots with
  | nil => rfl
  | cons t rest ih =>
      rw [List.mem_cons, not_or] at off
      rw [notify]
      split
      · rfl
      · rw [ih off.2, deposit, if_neg off.1]

theorem notify_full (full : slots tid = some m) : (notify thread msg waiting slots).1 tid = some m := by
  induction waiting generalizing slots with
  | nil => exact full
  | cons t rest ih =>
      rw [notify]
      split
      · exact full
      · rename_i empty
        apply ih
        rw [deposit, if_neg, full]
        rintro rfl
        rw [full] at empty
        exact empty (.inr rfl)

def Hears (thread : Nat → Lookup) (slots : Nat → Option Int) (tid : Nat) : Prop :=
  thread tid ≠ .free ∧ slots tid = none

theorem hears_iff : Hears thread slots tid ↔ ¬ (thread tid = .free ∨ (slots tid).isSome) := by
  rw [Hears, not_or, Option.not_isSome_iff_eq_none]

theorem notify_all :
    (notify thread msg waiting slots).2 = true ↔ waiting.Nodup ∧ ∀ t ∈ waiting, Hears thread slots t := by
  induction waiting generalizing slots with
  | nil => simp [notify]
  | cons t rest ih =>
      rw [notify, List.nodup_cons]
      by_cases hears : Hears thread slots t
      · rw [if_neg (hears_iff.mp hears), ih]
        constructor
        · rintro ⟨once, all⟩
          have other : t ∉ rest := by
            intro member
            have empty := (all t member).2
            rw [deposit, if_pos rfl] at empty
            cases empty
          refine ⟨⟨other, once⟩, fun t' member => ?_⟩
          rcases List.mem_cons.mp member with rfl | later
          · exact hears
          · obtain ⟨live, empty⟩ := all t' later
            rw [deposit, if_neg (by rintro rfl; exact other later)] at empty
            exact ⟨live, empty⟩
        · rintro ⟨⟨other, once⟩, all⟩
          refine ⟨once, fun t' member => ?_⟩
          obtain ⟨live, empty⟩ := all t' (List.mem_cons_of_mem _ member)
          refine ⟨live, ?_⟩
          rw [deposit, if_neg (by rintro rfl; exact other member)]
          exact empty
      · have stops : thread t = .free ∨ (slots t).isSome := not_not.mp (mt hears_iff.mpr hears)
        rw [if_pos stops]
        constructor
        · intro wrong
          cases wrong
        · rintro ⟨-, all⟩
          exact absurd (all t List.mem_cons_self) hears

theorem notify_sent (all : (notify thread msg waiting slots).2 = true) (member : tid ∈ waiting) :
    (notify thread msg waiting slots).1 tid = some msg := by
  induction waiting generalizing slots with
  | nil => cases member
  | cons t rest ih =>
      rw [notify] at all ⊢
      split at all
      · cases all
      · rename_i hears
        rw [if_neg hears]
        rcases List.mem_cons.mp member with rfl | member
        · exact notify_full (by rw [deposit, if_pos rfl])
        · exact ih all member

end

theorem arpNotify_entry (s : Arp) (i : Nat) (msg : Int) (j : Nat) :
    (s.arpNotify i msg).arptab j = s.arptab j ∨
      j = i ∧ (s.arpNotify i msg).arptab j = { s.arptab i with waiting := [] } := by
  rw [arpNotify]
  dsimp only
  split
  · by_cases same : j = i
    · exact .inr ⟨same, if_pos same⟩
    · exact .inl (if_neg same)
  · exact .inl rfl

theorem arpNotify_msg (s : Arp) (i : Nat) (msg : Int) :
    (s.arpNotify i msg).msg = (notify s.thread msg (s.arptab i).waiting s.msg).1 := by
  rw [arpNotify]
  dsimp only
  split <;> rfl

theorem arpNotify_same (s : Arp) (i : Nat) (msg : Int) :
    (s.arpNotify i msg).clktime = s.clktime ∧ (s.arpNotify i msg).thread = s.thread ∧
      (s.arpNotify i msg).announced = s.announced := by
  rw [arpNotify]
  dsimp only
  split <;> exact ⟨rfl, rfl, rfl⟩

structure Freed (s s' : Arp) : Prop where
  entry : ∀ j, s'.arptab j = s.arptab j ∨ s'.arptab j = Entry.zero
  clktime : s'.clktime = s.clktime
  thread : s'.thread = s.thread
  announced : s'.announced = s.announced
  msg : ∀ t, (∀ j, t ∈ (s.arptab j).waiting → s'.arptab j = s.arptab j) → s'.msg t = s.msg t
  full : ∀ t m, s.msg t = some m → s'.msg t = some m

theorem Freed.refl (s : Arp) : Freed s s :=
  ⟨fun _ => .inl rfl, rfl, rfl, rfl, fun _ _ => rfl, fun _ _ full => full⟩

theorem Freed.kept (freed : Freed s s') (member : tid ∈ (s'.arptab j).waiting) :
    s'.arptab j = s.arptab j := by
  rcases freed.entry j with same | zero
  · exact same
  · rw [zero] at member
    cases member

theorem Freed.trans {t : Arp} (first : Freed s s') (second : Freed s' t) : Freed s t where
  entry j := by
    rcases second.entry j with same | zero
    · rw [same]
      exact first.entry j
    · exact .inr zero
  clktime := second.clktime.trans first.clktime
  thread := second.thread.trans first.thread
  announced := second.announced.trans first.announced
  msg tid same := by
    have before : ∀ j, tid ∈ (s.arptab j).waiting → s'.arptab j = s.arptab j := by
      intro j member
      rcases first.entry j with kept | zero
      · exact kept
      · have last := same j member
        rcases second.entry j with kept | gone
        · rw [← kept, last]
        · rw [gone] at last
          rw [zero, last]
    rw [second.msg tid, first.msg tid before]
    intro j member
    have kept := first.kept member
    rw [kept] at member
    rw [same j member, kept]
  full tid m full := second.full tid m (first.full tid m full)

theorem arpFree_freed (s : Arp) (i : Nat) : Freed s (s.arpFree i) := by
  rw [arpFree]
  split
  · obtain ⟨clktime, thread, announced⟩ := arpNotify_same s i TIMEOUT
    have msg := arpNotify_msg s i TIMEOUT
    refine ⟨fun j => ?_, clktime, thread, announced, fun t same => ?_, fun t m full => ?_⟩
    · by_cases here : j = i
      · exact .inr (if_pos here)
      · rcases arpNotify_entry s i TIMEOUT j with same | ⟨same, -⟩
        · exact .inl ((if_neg here).trans same)
        · exact absurd same here
    · show (s.arpNotify i TIMEOUT).msg t = s.msg t
      rw [msg]
      apply notify_off
      intro member
      have zero := same i member
      rw [setEntry] at zero
      dsimp only at zero
      rw [if_pos rfl] at zero
      rw [← zero] at member
      cases member
    · show (s.arpNotify i TIMEOUT).msg t = some m
      rw [msg]
      exact notify_full full
  · refine ⟨fun j => ?_, rfl, rfl, rfl, fun _ _ => rfl, fun _ _ full => full⟩
    by_cases here : j = i
    · exact .inr (if_pos here)
    · exact .inl (if_neg here)

theorem getEntry_freed (praddr : Netaddr) (indices : List Nat) (s : Arp) :
    Freed s (getEntry praddr indices s).2 := by
  induction indices generalizing s with
  | nil => exact .refl s
  | cons i rest ih =>
      rw [getEntry]
      split_ifs
      · exact ih s
      · exact (arpFree_freed s i).trans (ih _)
      · exact .refl s
      · exact ih s

theorem getEntry_found {indices : List Nat} (found : (getEntry praddr indices s).1 = some i) :
    i ∈ indices ∧ ((getEntry praddr indices s).2.arptab i).state ≠ .free ∧
      ((getEntry praddr indices s).2.arptab i).praddr = praddr ∧
      s.clktime ≤ ((getEntry praddr indices s).2.arptab i).expires := by
  induction indices generalizing s with
  | nil => cases found
  | cons k rest ih =>
      rw [getEntry] at found ⊢
      split_ifs at found ⊢ with unused expired same
      · exact ⟨List.mem_cons_of_mem _ (ih found).1, (ih found).2⟩
      · obtain ⟨member, used, same, live⟩ := ih found
        rw [(arpFree_freed s k).clktime] at live
        exact ⟨List.mem_cons_of_mem _ member, used, same, live⟩
      · cases found
        exact ⟨List.mem_cons_self, unused, same, Nat.le_of_not_lt expired⟩
      · exact ⟨List.mem_cons_of_mem _ (ih found).1, (ih found).2⟩

theorem Freed.free (freed : Freed s s') (free : (s.arptab j).state = .free) : (s'.arptab j).state = .free := by
  rcases freed.entry j with same | zero
  · rw [same, free]
  · rw [zero]
    rfl

theorem getEntry_none {indices : List Nat} (none : (getEntry praddr indices s).1 = none) (member : j ∈ indices)
    (used : ((getEntry praddr indices s).2.arptab j).state ≠ .free) :
    ((getEntry praddr indices s).2.arptab j).praddr ≠ praddr := by
  induction indices generalizing s with
  | nil => cases member
  | cons k rest ih =>
      rw [getEntry] at none used ⊢
      split_ifs at none used ⊢ with unused expired same
      · rcases List.mem_cons.mp member with rfl | member
        · exact absurd ((getEntry_freed praddr rest s).free unused) used
        · exact ih none member used
      · rcases List.mem_cons.mp member with rfl | member
        · have gone : ((s.arpFree j).arptab j).state = .free := by
            rw [arpFree, setEntry]
            dsimp only
            rw [if_pos rfl]
            rfl
          exact absurd ((getEntry_freed praddr rest _).free gone) used
        · exact ih none member used
      · rcases List.mem_cons.mp member with rfl | member
        · rcases (getEntry_freed praddr rest s).entry j with kept | zero
          · rw [kept]
            exact same
          · rw [zero] at used
            exact absurd rfl used
        · exact ih none member used

theorem scan_mem {arptab : Nat → Entry} {indices : List Nat} {minexpires : Option Nat}
    (found : scan arptab indices minexpires = some i) : i ∈ indices ∨ minexpires = some i := by
  induction indices generalizing minexpires with
  | nil => exact .inr found
  | cons k rest ih =>
      cases minexpires with
      | none =>
          simp only [scan] at found
          split at found
          · cases found
            exact .inl List.mem_cons_self
          · rcases ih found with member | same
            · exact .inl (List.mem_cons_of_mem _ member)
            · cases same
              exact .inl List.mem_cons_self
      | some m =>
          simp only [scan] at found
          split at found
          · cases found
            exact .inl List.mem_cons_self
          · rcases ih found with member | same
            · exact .inl (List.mem_cons_of_mem _ member)
            · split at same <;> cases same
              · exact .inl List.mem_cons_self
              · exact .inr rfl

theorem setEntry_setEntry (s : Arp) (i : Nat) (e e' : Entry) : (s.setEntry i e).setEntry i e' = s.setEntry i e' := by
  simp only [setEntry, Arp.mk.injEq, and_true]
  funext j
  split_ifs <;> rfl

theorem setEntry_self (s : Arp) (i : Nat) (entry : Entry) : (s.setEntry i entry).arptab i = entry :=
  if_pos rfl

structure Shape (s : Arp) : Prop where
  bound : ∀ i, (s.arptab i).state ≠ .free → i < ARP_NENTRY
  free : ∀ i, (s.arptab i).state = .free → (s.arptab i).waiting = []
  unique : ∀ i j, (s.arptab i).state ≠ .free → (s.arptab j).state ≠ .free →
    (s.arptab i).praddr = (s.arptab j).praddr → i = j
  count : ∀ i, (s.arptab i).waiting.length ≤ ARP_NTHRWAIT

structure Table (s : Arp) : Prop extends Shape s where
  known : ∀ i, (s.arptab i).state = .resolved → s.announced (s.arptab i).praddr = some (s.arptab i).hwaddr

theorem start_table (clktime : Nat) : Table (start clktime) :=
  { bound := fun _ used => absurd rfl used
    free := fun _ _ => rfl
    unique := fun _ _ used _ => absurd rfl used
    count := fun _ => Nat.zero_le _
    known := fun _ resolved => nomatch resolved }

theorem Table.freed (table : Table s) (freed : Freed s s') : Table s' where
  bound i used := by
    rcases freed.entry i with same | zero
    · rw [same] at used
      exact table.bound i used
    · rw [zero] at used
      exact absurd rfl used
  free i unused := by
    rcases freed.entry i with same | zero
    · rw [same] at unused ⊢
      exact table.free i unused
    · rw [zero]
      rfl
  unique i j usedI usedJ same := by
    rcases freed.entry i with keptI | zero
    · rcases freed.entry j with keptJ | zero
      · rw [keptI] at usedI same
        rw [keptJ] at usedJ same
        exact table.unique i j usedI usedJ same
      · rw [zero] at usedJ
        exact absurd rfl usedJ
    · rw [zero] at usedI
      exact absurd rfl usedI
  count i := by
    rcases freed.entry i with same | zero
    · rw [same]
      exact table.count i
    · rw [zero]
      exact Nat.zero_le _
  known i resolved := by
    rcases freed.entry i with same | zero
    · rw [same] at resolved ⊢
      rw [freed.announced]
      exact table.known i resolved
    · rw [zero] at resolved
      cases resolved

theorem Shape.set (shape : Shape s) (bound : i < ARP_NENTRY) (used : entry.state ≠ .free)
    (alone : ∀ j, j ≠ i → (s.arptab j).state ≠ .free → (s.arptab j).praddr ≠ entry.praddr)
    (count : entry.waiting.length ≤ ARP_NTHRWAIT) : Shape (s.setEntry i entry) where
  bound j usedJ := by
    by_cases here : j = i
    · exact here ▸ bound
    · simp only [setEntry, if_neg here] at usedJ
      exact shape.bound j usedJ
  free j unused := by
    by_cases here : j = i
    · simp only [setEntry, if_pos here] at unused
      exact absurd unused used
    · simp only [setEntry, if_neg here] at unused ⊢
      exact shape.free j unused
  unique j k usedJ usedK same := by
    by_cases hereJ : j = i
    · by_cases hereK : k = i
      · rw [hereJ, hereK]
      · simp only [setEntry, if_pos hereJ, if_neg hereK] at usedK same
        exact absurd same.symm (alone k hereK usedK)
    · by_cases hereK : k = i
      · simp only [setEntry, if_neg hereJ, if_pos hereK] at usedJ same
        exact absurd same (alone j hereJ usedJ)
      · simp only [setEntry, if_neg hereJ, if_neg hereK] at usedJ usedK same
        exact shape.unique j k usedJ usedK same
  count j := by
    by_cases here : j = i
    · simp only [setEntry, if_pos here]
      exact count
    · simp only [setEntry, if_neg here]
      exact shape.count j

theorem Table.set (table : Table s) (bound : i < ARP_NENTRY) (used : entry.state ≠ .free)
    (alone : ∀ j, j ≠ i → (s.arptab j).state ≠ .free → (s.arptab j).praddr ≠ entry.praddr)
    (count : entry.waiting.length ≤ ARP_NTHRWAIT)
    (known : entry.state = .resolved → s.announced entry.praddr = some entry.hwaddr) :
    Table (s.setEntry i entry) where
  toShape := table.toShape.set bound used alone count
  known j resolved := by
    by_cases here : j = i
    · simp only [setEntry, if_pos here] at resolved ⊢
      exact known resolved
    · simp only [setEntry, if_neg here] at resolved ⊢
      exact table.known j resolved

theorem Table.alone (table : Table s) (used : (s.arptab i).state ≠ .free) (j : Nat) (other : j ≠ i)
    (usedJ : (s.arptab j).state ≠ .free) : (s.arptab j).praddr ≠ (s.arptab i).praddr :=
  fun same => other (table.unique j i usedJ used same)

theorem Table.notify (table : Table s) (used : (s.arptab i).state ≠ .free) (msg : Int) :
    Table (s.arpNotify i msg) := by
  rw [arpNotify]
  dsimp only
  split
  · exact Table.set ⟨⟨table.bound, table.free, table.unique, table.count⟩, table.known⟩ (table.bound i used) used
      (table.alone used) (Nat.zero_le _) (table.known i)
  · exact ⟨⟨table.bound, table.free, table.unique, table.count⟩, table.known⟩

theorem arpAlloc_some (alloc : s.arpAlloc = some (i, s')) (table : Table s) :
    i < ARP_NENTRY ∧ ∃ entry, s' = s.setEntry i entry ∧ entry.waiting = [] := by
  rw [arpAlloc, Option.map_eq_some_iff] at alloc
  obtain ⟨k, found, same⟩ := alloc
  cases same
  refine ⟨?_, _, rfl, ?_⟩
  · rcases scan_mem found with member | none
    · exact List.mem_range.mp member
    · cases none
  · split
    · rename_i unused
      exact table.free _ unused
    · rfl

theorem obtain_cases (table : Table s) (found : s.obtain praddr = (some i, s')) :
    ∃ t, Freed s t ∧ (s'.arptab i).praddr = praddr ∧ (s'.arptab i).state ≠ .free ∧ i < ARP_NENTRY ∧
      s.clktime ≤ (s'.arptab i).expires ∧
      (s' = t ∨ (∀ j, (t.arptab j).state ≠ .free → (t.arptab j).praddr ≠ praddr) ∧
        ∃ entry, s' = t.setEntry i entry ∧ entry.state = .unresolved ∧ entry.waiting = []) := by
  have freed := getEntry_freed praddr (List.range ARP_NENTRY) s
  rw [obtain, arpGetEntry] at found
  split at found
  · rename_i k t lookup
    cases found
    have facts := @getEntry_found s i praddr _ (by rw [lookup])
    rw [lookup] at facts freed
    obtain ⟨member, used, same, live⟩ := facts
    exact ⟨s', freed, same, used, List.mem_range.mp member, live, .inl rfl⟩
  · rename_i t lookup
    rw [lookup] at freed
    split at found
    · cases found
    rename_i k u alloc
    cases found
    obtain ⟨bound, e, rfl, waiting⟩ := arpAlloc_some alloc (table.freed freed)
    rw [setEntry_setEntry]
    refine ⟨t, freed, ?_, ?_, bound, ?_, .inr ⟨?_, _, rfl, rfl, rfl⟩⟩
    · rw [setEntry_self]
    · rw [setEntry_self]
      nofun
    · rw [setEntry_self]
      show s.clktime ≤ t.clktime + ARP_TTL_UNRESOLVED
      rw [freed.clktime]
      exact Nat.le_add_right _ _
    · intro j used
      have none := @getEntry_none s j praddr (List.range ARP_NENTRY)
        (by rw [lookup]) (List.mem_range.mpr ((table.freed freed).bound j used))
      rw [lookup] at none
      exact none used

theorem obtain_none (none : s.obtain praddr = (none, s')) : Freed s s' := by
  have freed := getEntry_freed praddr (List.range ARP_NENTRY) s
  rw [obtain, arpGetEntry] at none
  split at none
  · cases none
  · rename_i t lookup
    rw [lookup] at freed
    split at none <;> cases none
    exact freed

theorem obtain_table (table : Table s) (found : s.obtain praddr = (some i, s')) : Table s' := by
  obtain ⟨t, freed, same, -, bound, -, rfl | ⟨alone, entry, rfl, state, waiting⟩⟩ := obtain_cases table found
  · exact table.freed freed
  · rw [setEntry_self] at same
    apply (table.freed freed).set bound
    · rw [state]
      nofun
    · intro j _ used
      rw [same]
      exact alone j used
    · rw [waiting]
      exact Nat.zero_le _
    · rw [state]
      nofun

theorem attempt_table (table : Table s) (tid : Nat) (praddr : Netaddr) (lookups : Nat) :
    Table (s.attempt tid praddr lookups) := by
  have keep {t : Arp} {lookup : Lookup} (table : Table t) : Table (t.setThread tid lookup) :=
    ⟨⟨table.bound, table.free, table.unique, table.count⟩, table.known⟩
  rw [attempt]
  split
  · exact keep table
  · split
    · rename_i t none
      exact keep (table.freed (obtain_none none))
    · rename_i i t found
      have known := obtain_table table found
      obtain ⟨-, -, -, used, bound, -⟩ := obtain_cases table found
      dsimp only
      split_ifs with resolved full
      · exact keep known
      · exact keep known
      · apply keep
        refine known.set bound used (known.alone used) ?_ (known.known i)
        · rw [List.length_append, List.length_singleton]
          exact Nat.lt_of_not_le full

theorem Table.announce_set (table : Table s) (bound : i < ARP_NENTRY) (used : entry.state ≠ .free)
    {pkt : ArpPkt} (alone : ∀ j, j ≠ i → (s.arptab j).state ≠ .free → (s.arptab j).praddr ≠ pkt.spa)
    (count : entry.waiting.length ≤ ARP_NTHRWAIT) (praddr : entry.praddr = pkt.spa)
    (hwaddr : entry.hwaddr = pkt.sha) : Table ((s.announce pkt).setEntry i entry) where
  toShape := by
    have shape : Shape (s.announce pkt) := ⟨table.bound, table.free, table.unique, table.count⟩
    apply shape.set bound used _ count
    rw [praddr]
    exact alone
  known j resolved := by
    by_cases here : j = i
    · simp only [setEntry, announce, if_pos here, praddr, hwaddr, if_true]
    · simp only [setEntry, announce, if_neg here] at resolved ⊢
      have used : (s.arptab j).state ≠ .free := by
        rw [resolved]
        nofun
      rw [if_neg (alone j here used)]
      exact table.known j resolved

theorem Table.announce (table : Table s) {pkt : ArpPkt}
    (none : ∀ j, (s.arptab j).state ≠ .free → (s.arptab j).praddr ≠ pkt.spa) : Table (s.announce pkt) where
  toShape := ⟨table.bound, table.free, table.unique, table.count⟩
  known j resolved := by
    have used : (s.arptab j).state ≠ .free := by
      show ((s.announce pkt).arptab j).state ≠ .free
      rw [resolved]
      nofun
    show (if (s.arptab j).praddr = pkt.spa then some pkt.sha else _) = _
    rw [if_neg (none j used)]
    exact table.known j resolved

theorem resolve_table (table : Table s) (used : (s.arptab i).state ≠ .free) {pkt : ArpPkt}
    (same : (s.arptab i).praddr = pkt.spa) : Table ((s.announce pkt).resolve i pkt.sha) := by
  have alone := table.alone used
  rw [same] at alone
  rw [resolve]
  dsimp only
  split
  · apply Table.notify
    · refine table.announce_set (table.bound i used) ?_ alone (table.count i) same rfl
      nofun
    · rw [setEntry_self]
      nofun
  · refine table.announce_set (table.bound i used) ?_ alone (table.count i) same rfl
    exact used

theorem add_table (table : Table s) {pkt : ArpPkt}
    (none : ∀ j, (s.arptab j).state ≠ .free → (s.arptab j).praddr ≠ pkt.spa) :
    Table ((s.announce pkt).add pkt.sha pkt.spa) := by
  have announced := table.announce none
  rw [add]
  split
  · exact announced
  · rename_i i t alloc
    obtain ⟨bound, entry, rfl, waiting⟩ := arpAlloc_some alloc announced
    rw [setEntry_setEntry, setEntry_self]
    refine table.announce_set bound ?_ (fun j _ used => none j used) ?_ rfl rfl
    · nofun
    · rw [waiting]
      exact Nat.zero_le _

theorem absent (table : Table s) (none : getEntry praddr (List.range ARP_NENTRY) s = (none, s')) (j : Nat)
    (used : (s'.arptab j).state ≠ .free) : (s'.arptab j).praddr ≠ praddr := by
  have freed := table.freed (getEntry_freed praddr (List.range ARP_NENTRY) s)
  rw [none] at freed
  have facts := @getEntry_none s j praddr _ (by rw [none])
    (List.mem_range.mpr (freed.bound j used))
  rw [none] at facts
  exact facts used

theorem arpRecv_table (table : Table s) (ip : Netaddr) (pkt : ArpPkt) : Table (s.arpRecv ip pkt) := by
  rw [arpRecv]
  split
  · exact table
  · have freed := table.freed (getEntry_freed pkt.spa (List.range ARP_NENTRY) s)
    split
    · rename_i i t lookup
      rw [arpGetEntry] at lookup
      rw [lookup] at freed
      have facts := @getEntry_found s i pkt.spa _ (by rw [lookup])
      rw [lookup] at facts
      exact resolve_table freed facts.2.1 facts.2.2.1
    · rename_i t lookup
      rw [arpGetEntry] at lookup
      rw [lookup] at freed
      have none := absent table lookup
      split
      · exact add_table freed none
      · exact freed.announce none

theorem leave_some {point : Point} {next : Netaddr → Nat → Arp} (action : s.leave tid point next = some s') :
    ∃ praddr lookups, s.thread tid = .inside praddr lookups point ∧ s' = next praddr lookups := by
  rw [leave] at action
  split at action
  · split at action <;> cases action
    rename_i praddr lookups p thread same
    exact ⟨praddr, lookups, same ▸ thread, rfl⟩
  · cases action

theorem received_table (table : Table s) (tid : Nat) (praddr : Netaddr) (lookups : Nat) (msg : Int) :
    Table (s.received tid praddr lookups msg) := by
  rw [received]
  split <;> exact ⟨⟨table.bound, table.free, table.unique, table.count⟩, table.known⟩

theorem step_table (table : Table s) (action : step op s = some s') : Table s' := by
  have cleared (tid : Nat) : Table (s.clearSlot tid) :=
    ⟨⟨table.bound, table.free, table.unique, table.count⟩, table.known⟩
  have moved (tid : Nat) (lookup : Lookup) : Table (s.setThread tid lookup) :=
    ⟨⟨table.bound, table.free, table.unique, table.count⟩, table.known⟩
  have woken (tid : Nat) (praddr : Netaddr) (lookups : Nat) : Table (s.wake tid praddr lookups) := by
    rw [wake]
    split
    · exact received_table (cleared tid) tid praddr lookups _
    · exact received_table table tid praddr lookups _
  cases op with
  | arpLookup tid praddr =>
      simp only [step] at action
      split at action <;> cases action
      exact moved _ _
  | attempt tid =>
      obtain ⟨praddr, lookups, -, rfl⟩ := leave_some action
      exact attempt_table table tid praddr lookups
  | arpSendRqst tid sends =>
      obtain ⟨praddr, lookups, -, rfl⟩ := leave_some action
      exact moved _ _
  | recvclr tid =>
      obtain ⟨praddr, lookups, -, rfl⟩ := leave_some action
      exact ⟨⟨table.bound, table.free, table.unique, table.count⟩, table.known⟩
  | recvtime tid =>
      obtain ⟨praddr, lookups, -, rfl⟩ := leave_some action
      rw [recvtime]
      split
      · exact received_table (cleared tid) tid praddr lookups _
      · exact moved _ _
  | timeout tid =>
      simp only [step] at action
      split at action
      · obtain ⟨praddr, lookups, -, rfl⟩ := leave_some action
        exact moved _ _
      · cases action
  | wake tid =>
      simp only [step] at action
      split at action
      · split at action <;> cases action
        exact woken _ _ _
      · cases action
        exact woken _ _ _
      · cases action
  | send tid msg =>
      simp only [step] at action
      split at action <;> cases action
      · exact table
      · exact ⟨⟨table.bound, table.free, table.unique, table.count⟩, table.known⟩
  | kill tid =>
      cases action
      exact moved _ _
  | create tid =>
      simp only [step] at action
      split at action <;> cases action
      exact ⟨⟨table.bound, table.free, table.unique, table.count⟩, table.known⟩
  | arpRecv ip pkt =>
      cases action
      exact arpRecv_table table ip pkt
  | tick =>
      cases action
      exact ⟨⟨table.bound, table.free, table.unique, table.count⟩, table.known⟩

theorem attempt_found (table : Table s) {lookups : Nat} {hwaddr : Netaddr}
    (found : (s.attempt tid praddr lookups).thread tid = .back (some hwaddr)) :
    (s.attempt tid praddr lookups).announced praddr = some hwaddr ∧
      ∃ i, ((s.attempt tid praddr lookups).arptab i).praddr = praddr ∧
        ((s.attempt tid praddr lookups).arptab i).state = .resolved ∧
        s.clktime ≤ ((s.attempt tid praddr lookups).arptab i).expires := by
  have set (t : Arp) (lookup : Lookup) : (t.setThread tid lookup).thread tid = lookup := if_pos rfl
  rw [attempt] at found ⊢
  split at found
  · rw [set] at found
    cases found
  · rename_i more
    rw [if_neg more]
    split at found
    · rw [set] at found
      cases found
    · rename_i i t lookup
      have known := obtain_table table lookup
      obtain ⟨-, -, same, -, -, live, -⟩ := obtain_cases table lookup
      dsimp only at found ⊢
      split_ifs at found ⊢ with resolved full
      · rw [set] at found
        cases found
        refine ⟨?_, i, same, resolved, live⟩
        rw [← same]
        exact known.known i resolved
      · rw [set] at found
        cases found
      · rw [set] at found
        cases found

def Point.registered : Point → Prop
  | .request | .clear | .receive | .waiting => True
  | .attempt | .expired => False

structure Waiters (s : Arp) : Prop where
  inside : ∀ i t, t ∈ (s.arptab i).waiting →
    ∃ lookups point, s.thread t = .inside (s.arptab i).praddr lookups point ∧ point.registered
  once : ∀ i, (s.arptab i).waiting.Nodup
  empty : ∀ i t praddr lookups, t ∈ (s.arptab i).waiting →
    s.thread t = .inside praddr lookups .receive ∨ s.thread t = .inside praddr lookups .waiting → s.msg t = none

def listed (s : Arp) (tid : Nat) : Bool := ∃ i ∈ List.range ARP_NENTRY, tid ∈ (s.arptab i).waiting

theorem start_waiters (clktime : Nat) : Waiters (start clktime) :=
  { inside := fun _ _ member => nomatch member
    once := fun _ => List.nodup_nil
    empty := fun _ _ _ _ member => nomatch member }

theorem Table.used (table : Table s) (member : tid ∈ (s.arptab i).waiting) : (s.arptab i).state ≠ .free := by
  intro free
  rw [table.free i free] at member
  cases member

theorem Table.listed (table : Table s) (member : tid ∈ (s.arptab i).waiting) : s.listed tid = true :=
  decide_eq_true ⟨i, List.mem_range.mpr (table.bound i (table.used member)), member⟩

theorem Table.unlisted (table : Table s) (off : s.listed tid = false) (i : Nat) : tid ∉ (s.arptab i).waiting := by
  intro member
  rw [table.listed member] at off
  cases off

theorem Waiters.one (waiters : Waiters s) (table : Table s) (memberI : tid ∈ (s.arptab i).waiting)
    (memberJ : tid ∈ (s.arptab j).waiting) : i = j := by
  obtain ⟨_, _, threadI, -⟩ := waiters.inside i tid memberI
  obtain ⟨_, _, threadJ, -⟩ := waiters.inside j tid memberJ
  rw [threadI, Lookup.inside.injEq] at threadJ
  exact table.unique i j (table.used memberI) (table.used memberJ) threadJ.1

theorem Waiters.off (waiters : Waiters s) {lookups : Nat} {point : Point}
    (thread : s.thread tid = .inside praddr lookups point) (out : ¬ point.registered) (i : Nat) :
    tid ∉ (s.arptab i).waiting := by
  intro member
  obtain ⟨_, _, same, registered⟩ := waiters.inside i tid member
  rw [thread, Lookup.inside.injEq] at same
  exact out (same.2.2 ▸ registered)

theorem Waiters.out (waiters : Waiters s)
    (out : ∀ praddr lookups point, s.thread tid ≠ .inside praddr lookups point) (i : Nat) :
    tid ∉ (s.arptab i).waiting := by
  intro member
  obtain ⟨lookups, point, same, -⟩ := waiters.inside i tid member
  exact out _ lookups point same

theorem Waiters.lives (waiters : Waiters s) (member : tid ∈ (s.arptab i).waiting) : s.thread tid ≠ .free := by
  obtain ⟨_, _, inside, -⟩ := waiters.inside i tid member
  rw [inside]
  intro free
  cases free

theorem Waiters.shrink (waiters : Waiters s)
    (entry : ∀ i, ((s'.arptab i).waiting = (s.arptab i).waiting ∧ (s'.arptab i).praddr = (s.arptab i).praddr) ∨
      (s'.arptab i).waiting = [])
    (thread : ∀ i t, t ∈ (s'.arptab i).waiting → s'.thread t = s.thread t)
    (msg : ∀ i t, t ∈ (s'.arptab i).waiting → s'.msg t = s.msg t) : Waiters s' where
  inside i t member := by
    have same := thread i t member
    rcases entry i with ⟨waiting, praddr⟩ | none
    · rw [waiting] at member
      rw [same, praddr]
      exact waiters.inside i t member
    · rw [none] at member
      cases member
  once i := by
    rcases entry i with ⟨waiting, -⟩ | none
    · rw [waiting]
      exact waiters.once i
    · rw [none]
      exact List.nodup_nil
  empty i t praddr lookups member at_receive := by
    have same := thread i t member
    have slot := msg i t member
    rcases entry i with ⟨waiting, -⟩ | none
    · rw [waiting] at member
      rw [same] at at_receive
      rw [slot]
      exact waiters.empty i t praddr lookups member at_receive
    · rw [none] at member
      cases member

theorem Waiters.freed (waiters : Waiters s) (table : Table s) (freed : Freed s s') : Waiters s' := by
  apply waiters.shrink
  · intro i
    rcases freed.entry i with same | zero
    · exact .inl ⟨by rw [same], by rw [same]⟩
    · exact .inr (by rw [zero]; rfl)
  · intro i t _
    rw [freed.thread]
  · intro i t member
    apply freed.msg
    have kept := freed.kept member
    rw [kept] at member
    intro j memberJ
    rw [← waiters.one table member memberJ]
    exact kept

theorem Waiters.move (waiters : Waiters s) (off : ∀ i, tid ∉ (s.arptab i).waiting) (lookup : Lookup)
    (msg : ∀ t, t ≠ tid → s'.msg t = s.msg t) (same : s'.arptab = s.arptab)
    (thread : s'.thread = (s.setThread tid lookup).thread) : Waiters s' := by
  apply waiters.shrink
  · intro i
    rw [same]
    exact .inl ⟨rfl, rfl⟩
  · intro i t member
    rw [same] at member
    rw [thread]
    exact if_neg (by rintro rfl; exact off i member)
  · intro i t member
    rw [same] at member
    exact msg t (by rintro rfl; exact off i member)

theorem Waiters.notified (waiters : Waiters s) (table : Table s)
    (empty : ∀ t ∈ (s.arptab i).waiting, s.msg t = none) (msg : Int) : Waiters (s.arpNotify i msg) := by
  have all : (notify s.thread msg (s.arptab i).waiting s.msg).2 = true :=
    notify_all.mpr ⟨waiters.once i, fun t member => ⟨waiters.lives member, empty t member⟩⟩
  have done : ((s.arpNotify i msg).arptab i).waiting = [] := by
    rw [arpNotify]
    simp only [all, if_true, setEntry_self]
  apply waiters.shrink
  · intro j
    rcases arpNotify_entry s i msg j with same | ⟨-, same⟩
    · exact .inl ⟨by rw [same], by rw [same]⟩
    · exact .inr (by rw [same])
  · intro j t _
    rw [(arpNotify_same s i msg).2.1]
  · intro j t member
    rw [arpNotify_msg]
    apply notify_off
    intro listed
    have other : j ≠ i := by
      rintro rfl
      rw [done] at member
      cases member
    rcases arpNotify_entry s i msg j with same | ⟨here, -⟩
    · rw [same] at member
      exact other (waiters.one table member listed)
    · exact other here

/-- The request of a registered thread is sent, its `recvtime` ends with no timeout and no message from
elsewhere, it is not killed, and a reply finds the message slots of the threads that wait for it empty. -/
def quiet (s : Arp) : Op → Bool
  | .arpSendRqst tid sends => sends ∨ s.listed tid = false
  | .timeout tid => s.listed tid = false
  | .send tid _ => s.listed tid = false
  | .kill tid => s.listed tid = false
  | .arpRecv _ pkt =>
      ∀ i ∈ List.range ARP_NENTRY, (s.arptab i).state = .unresolved → (s.arptab i).praddr = pkt.spa →
        s.clktime ≤ (s.arptab i).expires → ∀ t ∈ (s.arptab i).waiting, s.msg t = none
  | _ => true

theorem obtain_waiters (waiters : Waiters s) (table : Table s) {found : Option Nat}
    (result : s.obtain praddr = (found, s')) : Waiters s' ∧ s'.thread = s.thread := by
  cases found with
  | none =>
      have freed := obtain_none result
      exact ⟨waiters.freed table freed, freed.thread⟩
  | some i =>
      obtain ⟨t, freed, -, -, -, -, rfl | ⟨-, entry, rfl, -, waiting⟩⟩ := obtain_cases table result
      · exact ⟨waiters.freed table freed, freed.thread⟩
      · refine ⟨(waiters.freed table freed).shrink ?_ (fun _ _ _ => rfl) (fun _ _ _ => rfl), freed.thread⟩
        intro j
        by_cases here : j = i
        · right
          rw [here, setEntry_self, waiting]
        · left
          simp only [setEntry, if_neg here, and_self]

theorem Waiters.register (waiters : Waiters s) (off : ∀ i, tid ∉ (s.arptab i).waiting)
    (address : (s.arptab i).praddr = praddr) (lookups : Nat) :
    Waiters ((s.setEntry i { s.arptab i with waiting := (s.arptab i).waiting ++ [tid] }).setThread tid
      (.inside praddr lookups .request)) where
  inside j t member := by
    by_cases here : j = i
    · simp only [setEntry, setThread, if_pos here, List.mem_append, List.mem_singleton] at member ⊢
      rcases member with before | rfl
      · obtain ⟨l, point, inside, registered⟩ := waiters.inside i t before
        rw [if_neg (by rintro rfl; exact off i before)]
        exact ⟨l, point, inside, registered⟩
      · rw [if_pos rfl, address]
        exact ⟨lookups, .request, rfl, trivial⟩
    · simp only [setEntry, setThread, if_neg here] at member ⊢
      obtain ⟨l, point, inside, registered⟩ := waiters.inside j t member
      rw [if_neg (by rintro rfl; exact off j member)]
      exact ⟨l, point, inside, registered⟩
  once j := by
    by_cases here : j = i
    · simp only [setEntry, setThread, if_pos here]
      rw [List.nodup_append]
      refine ⟨waiters.once i, List.pairwise_singleton _ _, ?_⟩
      rintro t before t' last rfl
      rw [List.mem_singleton.mp last] at before
      exact off i before
    · simp only [setEntry, setThread, if_neg here]
      exact waiters.once j
  empty j t a l member receives := by
    by_cases new : t = tid
    · simp only [setThread, if_pos new] at receives
      rcases receives with wrong | wrong <;> cases wrong
    · simp only [setThread, setEntry, if_neg new] at member receives
      by_cases here : j = i
      · simp only [if_pos here, List.mem_append, List.mem_singleton, new, or_false] at member
        exact waiters.empty i t a l member receives
      · simp only [if_neg here] at member
        exact waiters.empty j t a l member receives

theorem attempt_waiters (waiters : Waiters s) (table : Table s) {lookups : Nat}
    (thread : s.thread tid = .inside praddr lookups .attempt) : Waiters (s.attempt tid praddr lookups) := by
  rw [attempt]
  split
  · exact waiters.move (waiters.off thread id) _ (fun _ _ => rfl) rfl rfl
  · split
    · rename_i t none
      obtain ⟨after, same⟩ := obtain_waiters waiters table none
      rw [← same] at thread
      exact after.move (after.off thread id) _ (fun _ _ => rfl) rfl rfl
    · rename_i i t found
      obtain ⟨after, same⟩ := obtain_waiters waiters table found
      have known := obtain_table table found
      obtain ⟨-, -, address, -⟩ := obtain_cases table found
      rw [← same] at thread
      have off := after.off thread id
      have stop (lookup : Lookup) : Waiters (t.setThread tid lookup) :=
        after.move off lookup (fun _ _ => rfl) rfl rfl
      dsimp only
      split_ifs
      · exact stop _
      · exact stop _
      · exact after.register off address (lookups + 1)

theorem arpRecv_waiters (waiters : Waiters s) (table : Table s) {ip : Netaddr} {pkt : ArpPkt}
    (calm : quiet s (.arpRecv ip pkt) = true) : Waiters (s.arpRecv ip pkt) := by
  rw [arpRecv]
  split
  · exact waiters
  · have freed := getEntry_freed pkt.spa (List.range ARP_NENTRY) s
    split
    · rename_i i t lookup
      rw [arpGetEntry] at lookup
      rw [lookup] at freed
      have facts := @getEntry_found s i pkt.spa _ (by rw [lookup])
      rw [lookup] at facts
      dsimp only at freed facts
      obtain ⟨member, used, same, live⟩ := facts
      have after := waiters.freed table freed
      have known := table.freed freed
      have kept : t.arptab i = s.arptab i := by
        rcases freed.entry i with kept | zero
        · exact kept
        · rw [zero] at used
          exact absurd rfl used
      have modified (state : State) : Waiters ((t.announce pkt).setEntry i
          { t.arptab i with state, hwaddr := pkt.sha, expires := t.clktime + ARP_TTL_RESOLVED }) := by
        refine Waiters.shrink (s := t) after ?_ (fun _ _ _ => rfl) (fun _ _ _ => rfl)
        intro j
        left
        by_cases here : j = i
        · rw [here, setEntry_self]
          exact ⟨rfl, rfl⟩
        · simp only [setEntry, announce, if_neg here, and_self]
      rw [resolve]
      dsimp only
      split
      · rename_i unresolved
        apply (modified .resolved).notified
        · refine known.announce_set (known.bound i used) ?_ ?_ (known.count i) same rfl
          · nofun
          · rw [← same]
            exact known.alone used
        · rw [setEntry_self]
          intro t' waiting
          rw [kept] at waiting
          have unchanged : t.msg t' = s.msg t' := by
            apply freed.msg
            intro j memberJ
            rw [← waiters.one table waiting memberJ]
            exact kept
          show t.msg t' = none
          rw [unchanged]
          simp only [quiet, decide_eq_true_eq] at calm
          have waits : (t.arptab i).state = .unresolved := unresolved
          rw [kept] at waits same live
          exact calm i member waits same live t' waiting
      · exact modified _
    · rename_i t lookup
      rw [arpGetEntry] at lookup
      rw [lookup] at freed
      have known := table.freed freed
      have none := absent table lookup
      have announced : Waiters (t.announce pkt) :=
        Waiters.shrink (s := t) (waiters.freed table freed) (fun _ => .inl ⟨rfl, rfl⟩) (fun _ _ _ => rfl)
          (fun _ _ _ => rfl)
      split
      · rw [add]
        split
        · exact announced
        · rename_i i u alloc
          obtain ⟨-, e, rfl, waiting⟩ := arpAlloc_some alloc (known.announce none)
          rw [setEntry_setEntry, setEntry_self]
          refine announced.shrink ?_ (fun _ _ _ => rfl) (fun _ _ _ => rfl)
          intro j
          by_cases here : j = i
          · right
            rw [here, setEntry_self, waiting]
          · left
            simp only [setEntry, if_neg here, and_self]
      · exact announced

theorem Waiters.advance (waiters : Waiters s) {lookups : Nat} {point : Point}
    (thread : s.thread tid = .inside praddr lookups point) (next : Point) (registered : next.registered)
    (same : s'.arptab = s.arptab)
    (thread' : s'.thread = (s.setThread tid (.inside praddr lookups next)).thread)
    (msg : ∀ t, t ≠ tid → s'.msg t = s.msg t)
    (slot : next = .receive ∨ next = .waiting → s'.msg tid = none) : Waiters s' where
  inside i t member := by
    rw [same] at member ⊢
    obtain ⟨l, p, inside, old⟩ := waiters.inside i t member
    rw [thread']
    by_cases here : t = tid
    · rw [here, thread, Lookup.inside.injEq] at inside
      rw [← inside.1]
      exact ⟨lookups, next, if_pos here, registered⟩
    · exact ⟨l, p, (if_neg here).trans inside, old⟩
  once i := by
    rw [same]
    exact waiters.once i
  empty i t a l member receives := by
    rw [same] at member
    rw [thread'] at receives
    by_cases here : t = tid
    · simp only [setThread, if_pos here, Lookup.inside.injEq] at receives
      rw [here]
      exact slot (receives.imp (fun h => h.2.2) fun h => h.2.2)
    · simp only [setThread, if_neg here] at receives
      rw [msg t here]
      exact waiters.empty i t a l member receives

theorem wake_waiters (waiters : Waiters s) (off : ∀ i, tid ∉ (s.arptab i).waiting) (praddr : Netaddr)
    (lookups : Nat) : Waiters (s.wake tid praddr lookups) := by
  have slot (t : Nat) (other : t ≠ tid) : (s.clearSlot tid).msg t = s.msg t := if_neg other
  rw [wake]
  split
  · rw [received]
    split <;> exact waiters.move off _ slot rfl rfl
  · rw [received, if_pos (.inl rfl)]
    exact waiters.move off _ (fun _ _ => rfl) rfl rfl

theorem step_waiters (waiters : Waiters s) (table : Table s) (calm : quiet s op = true)
    (action : step op s = some s') : Waiters s' := by
  cases op with
  | arpLookup tid praddr =>
      simp only [step] at action
      split at action <;> cases action
      rename_i thread
      refine waiters.move (waiters.out fun a l p inside => ?_) _ (fun _ _ => rfl) rfl rfl
      rw [thread] at inside
      cases inside
  | attempt tid =>
      obtain ⟨praddr, lookups, thread, rfl⟩ := leave_some action
      exact attempt_waiters waiters table thread
  | arpSendRqst tid sends =>
      obtain ⟨praddr, lookups, thread, rfl⟩ := leave_some action
      simp only [quiet, decide_eq_true_eq] at calm
      rcases calm with rfl | off
      · exact waiters.advance thread .clear trivial rfl rfl (fun _ _ => rfl) (by rintro (wrong | wrong) <;> cases wrong)
      · exact waiters.move (table.unlisted off) _ (fun _ _ => rfl) rfl rfl
  | recvclr tid =>
      obtain ⟨praddr, lookups, thread, rfl⟩ := leave_some action
      exact waiters.advance thread .receive trivial rfl rfl (fun _ other => if_neg other) fun _ => if_pos rfl
  | recvtime tid =>
      obtain ⟨praddr, lookups, thread, rfl⟩ := leave_some action
      cases slot : s.msg tid with
      | some m =>
          have off (i : Nat) : tid ∉ (s.arptab i).waiting := by
            intro member
            rw [waiters.empty i tid praddr lookups member (.inl thread)] at slot
            cases slot
          have same : s.recvtime tid praddr lookups = s.wake tid praddr lookups := by
            simp only [recvtime, wake, slot]
          rw [same]
          exact wake_waiters waiters off praddr lookups
      | none =>
          simp only [recvtime, slot]
          exact waiters.advance thread .waiting trivial rfl rfl (fun _ _ => rfl) fun _ => slot
  | timeout tid =>
      simp only [step] at action
      split at action
      · obtain ⟨praddr, lookups, thread, rfl⟩ := leave_some action
        simp only [quiet, decide_eq_true_eq] at calm
        exact waiters.move (table.unlisted calm) _ (fun _ _ => rfl) rfl rfl
      · cases action
  | wake tid =>
      simp only [step] at action
      split at action
      · rename_i praddr lookups thread
        split at action <;> cases action
        rename_i full
        apply wake_waiters waiters
        intro i member
        rw [waiters.empty i tid praddr lookups member (.inr thread)] at full
        cases full
      · rename_i praddr lookups thread
        cases action
        exact wake_waiters waiters (waiters.off thread id) praddr lookups
      · cases action
  | send tid msg =>
      simp only [step] at action
      simp only [quiet, decide_eq_true_eq] at calm
      split at action <;> cases action
      · exact waiters
      · refine Waiters.shrink (s := s) waiters (fun _ => .inl ⟨rfl, rfl⟩) (fun _ _ _ => rfl) fun i t member => ?_
        exact if_neg (by rintro rfl; exact table.unlisted calm i member)
  | kill tid =>
      cases action
      simp only [quiet, decide_eq_true_eq] at calm
      exact waiters.move (table.unlisted calm) _ (fun _ _ => rfl) rfl rfl
  | create tid =>
      simp only [step] at action
      split at action <;> cases action
      rename_i free
      refine waiters.move (waiters.out fun a l p inside => ?_) _ (fun _ other => if_neg other) rfl rfl
      rw [free] at inside
      cases inside
  | arpRecv ip pkt =>
      cases action
      exact arpRecv_waiters waiters table calm
  | tick =>
      cases action
      exact ⟨waiters.inside, waiters.once, waiters.empty⟩

theorem quiet_invariant {clktime : Nat}
    (reach : Lib.Reach step (fun s op => quiet s op = true) (start clktime) s) : Table s ∧ Waiters s := by
  induction reach with
  | init => exact ⟨start_table clktime, start_waiters clktime⟩
  | next _ calm action ih => exact ⟨step_table ih.1 action, step_waiters ih.2 ih.1 calm action⟩

/-- In every quiet run, an address has one entry, ten threads wait for an entry at most, each of them is
in `arpLookup` for its address, and a lookup that succeeds returns the address announced last. -/
theorem arp_table {clktime : Nat}
    (reach : Lib.Reach step (fun s op => quiet s op = true) (start clktime) s) :
    (∀ i j, (s.arptab i).state ≠ .free → (s.arptab j).state ≠ .free →
        (s.arptab i).praddr = (s.arptab j).praddr → i = j) ∧
      (∀ i, (s.arptab i).waiting.length ≤ ARP_NTHRWAIT) ∧
      (∀ i t, t ∈ (s.arptab i).waiting →
        ∃ lookups point, s.thread t = .inside (s.arptab i).praddr lookups point) ∧
      ∀ tid s' praddr lookups hwaddr, s.thread tid = .inside praddr lookups .attempt →
        step (.attempt tid) s = some s' → s'.thread tid = .back (some hwaddr) →
          s'.announced praddr = some hwaddr ∧
            ∃ i, (s'.arptab i).praddr = praddr ∧ (s'.arptab i).state = .resolved ∧
              s.clktime ≤ (s'.arptab i).expires := by
  obtain ⟨table, waiters⟩ := quiet_invariant reach
  refine ⟨table.unique, table.count, fun i t member => ?_, ?_⟩
  · obtain ⟨lookups, point, inside, -⟩ := waiters.inside i t member
    exact ⟨lookups, point, inside⟩
  · intro tid s' praddr lookups hwaddr thread action found
    obtain ⟨praddr', lookups', thread', rfl⟩ := leave_some action
    rw [thread, Lookup.inside.injEq] at thread'
    obtain ⟨rfl, rfl, -⟩ := thread'
    exact attempt_found table found

def reply : ArpPkt :=
  { hwtype := ARP_HWTYPE_ETHERNET, prtype := ETHER_TYPE_IPv4, hwalen := ETH_ADDR_LEN, pralen := IPv4_ADDR_LEN
    addrs := fun _ => 7 }

def oneLookup : List Op :=
  [.arpLookup 0 reply.spa, .attempt 0, .arpSendRqst 0 true, .recvclr 0, .recvtime 0, .arpRecv reply.spa reply,
    .wake 0]

theorem oneLookup_found :
    ∃ s s', Lib.Reach step (fun s op => quiet s op = true) (start 0) s ∧ step (.attempt 0) s = some s' ∧
      s'.thread 0 = .back (some reply.sha) ∧ s'.announced reply.spa = some reply.sha := by
  have runs : (Lib.run step quiet oneLookup (start 0)).map
      (fun s => (s.thread 0, (step (.attempt 0) s).map fun s' => s'.thread 0)) =
      some (.inside reply.spa 1 .attempt, some (.back (some reply.sha))) := by
    decide +kernel
  rw [Option.map_eq_some_iff] at runs
  obtain ⟨s, run, same⟩ := runs
  rw [Prod.mk.injEq, Option.map_eq_some_iff] at same
  obtain ⟨thread, s', action, found⟩ := same
  have reach : Lib.Reach step (fun s op => quiet s op = true) (start 0) s :=
    Lib.Reach.run (fun _ _ calm => calm) .init run
  exact ⟨s, s', reach, action, found, ((arp_table reach).2.2.2 0 s' _ _ _ thread action found).1⟩

def lateReply : List Op :=
  [.arpLookup 0 reply.spa, .attempt 0, .arpSendRqst 0 true, .recvclr 0, .recvtime 0, .timeout 0, .wake 0]

theorem lateReply_listed :
    ∃ s, Lib.Reach step (fun _ _ => True) (start 0) s ∧ s.thread 0 = .back none ∧ 0 ∈ (s.arptab 0).waiting := by
  have runs : (Lib.run step (fun _ _ => true) lateReply (start 0)).map
      (fun s => (s.thread 0, (s.arptab 0).waiting)) = some (.back none, [0]) := by
    decide +kernel
  rw [Option.map_eq_some_iff] at runs
  obtain ⟨s, run, same⟩ := runs
  rw [Prod.mk.injEq] at same
  exact ⟨s, Lib.Reach.run (fun _ _ _ => trivial) .init run, same.1, by rw [same.2]; exact List.mem_cons_self⟩

section
variable {ip : Netaddr} {pkt : ArpPkt} {t : Arp}

theorem arpNotify_waiting (s : Arp) (i : Nat) (msg : Int) :
    ((s.arpNotify i msg).arptab i).waiting =
      if (notify s.thread msg (s.arptab i).waiting s.msg).2 then [] else (s.arptab i).waiting := by
  rw [arpNotify]
  dsimp only
  split
  · rw [setEntry_self]
  · rfl

theorem arpRecv_unresolved (valid : pkt.valid = true) (lookup : s.arpGetEntry pkt.spa = (some i, t))
    (unresolved : (t.arptab i).state = .unresolved) :
    (s.arpRecv ip pkt).msg = (notify t.thread ARP_MSG_RESOLVED (t.arptab i).waiting t.msg).1 ∧
      (s.arpRecv ip pkt).thread = t.thread ∧
      ((s.arpRecv ip pkt).arptab i).waiting =
        if (notify t.thread ARP_MSG_RESOLVED (t.arptab i).waiting t.msg).2 then [] else (t.arptab i).waiting := by
  have waits : ((t.announce pkt).arptab i).state = .unresolved := unresolved
  have result : s.arpRecv ip pkt = ((t.announce pkt).setEntry i
      { t.arptab i with
        state := .resolved, hwaddr := pkt.sha, expires := t.clktime + ARP_TTL_RESOLVED }).arpNotify i
      ARP_MSG_RESOLVED := by
    rw [arpRecv, if_neg (by rw [valid]; decide), lookup]
    dsimp only
    rw [resolve]
    dsimp only
    rw [if_pos waits]
    rfl
  rw [result]
  refine ⟨?_, (arpNotify_same _ _ _).2.1, ?_⟩
  · rw [arpNotify_msg, setEntry_self]
    rfl
  · rw [arpNotify_waiting, setEntry_self]
    rfl

theorem arpRecv_notifies (valid : pkt.valid = true) (lookup : s.arpGetEntry pkt.spa = (some i, t))
    (unresolved : (t.arptab i).state = .unresolved) :
    ((∀ tid ∈ (t.arptab i).waiting, (s.arpRecv ip pkt).msg tid = some ARP_MSG_RESOLVED) ∧
        ((s.arpRecv ip pkt).arptab i).waiting = []) ↔
      (t.arptab i).waiting.Nodup ∧ ∀ tid ∈ (t.arptab i).waiting, Hears t.thread t.msg tid := by
  obtain ⟨msg, -, waiting⟩ := @arpRecv_unresolved _ _ ip _ _ valid lookup unresolved
  rw [msg, waiting, ← @notify_all t.thread ARP_MSG_RESOLVED]
  constructor
  · rintro ⟨-, emptied⟩
    split at emptied
    · assumption
    · rw [emptied]
      rfl
  · intro all
    exact ⟨fun tid member => notify_sent all member, if_pos all⟩

/-- The thread has the message that its address is resolved, or has taken it and looks again. -/
def Answered (s : Arp) (tid : Nat) (praddr : Netaddr) (lookups : Nat) : Prop :=
  s.msg tid = some ARP_MSG_RESOLVED ∧
      (s.thread tid = .inside praddr lookups .receive ∨ s.thread tid = .inside praddr lookups .waiting) ∨
    s.thread tid = .inside praddr lookups .attempt

theorem Answered.keep {lookups : Nat} (answered : Answered s tid praddr lookups)
    (thread : s'.thread tid = s.thread tid)
    (full : ∀ m, s.msg tid = some m → s'.msg tid = some m) : Answered s' tid praddr lookups := by
  rw [Answered, thread]
  exact answered.imp (fun ⟨slot, receives⟩ => ⟨full _ slot, receives⟩) id

theorem setThread_other {t : Nat} (other : tid ≠ t) (lookup : Lookup) :
    (s.setThread t lookup).thread tid = s.thread tid := if_neg other

theorem obtain_keeps (s : Arp) (praddr : Netaddr) :
    (s.obtain praddr).2.thread = s.thread ∧
      ∀ t m, s.msg t = some m → (s.obtain praddr).2.msg t = some m := by
  have freed := getEntry_freed praddr (List.range ARP_NENTRY) s
  rw [obtain, arpGetEntry]
  split
  · rename_i k u lookup
    rw [lookup] at freed
    exact ⟨freed.thread, freed.full⟩
  · rename_i u lookup
    rw [lookup] at freed
    split
    · exact ⟨freed.thread, freed.full⟩
    · rename_i k v alloc
      rw [arpAlloc, Option.map_eq_some_iff] at alloc
      obtain ⟨_, -, same⟩ := alloc
      cases same
      exact ⟨freed.thread, freed.full⟩

theorem attempt_keeps (s : Arp) {t : Nat} (other : tid ≠ t) (praddr : Netaddr) (lookups : Nat) :
    (s.attempt t praddr lookups).thread tid = s.thread tid ∧
      ∀ m, s.msg tid = some m → (s.attempt t praddr lookups).msg tid = some m := by
  obtain ⟨thread, full⟩ := obtain_keeps s praddr
  rw [attempt]
  split
  · exact ⟨setThread_other other _, fun _ full => full⟩
  · split
    · rename_i u found
      rw [found] at thread full
      exact ⟨(setThread_other other _).trans (congrFun thread tid), full tid⟩
    · rename_i k u found
      rw [found] at thread full
      dsimp only
      split_ifs <;> exact ⟨(setThread_other other _).trans (congrFun thread tid), full tid⟩

theorem arpRecv_keeps (s : Arp) (ip : Netaddr) (pkt : ArpPkt) :
    (s.arpRecv ip pkt).thread tid = s.thread tid ∧
      ∀ m, s.msg tid = some m → (s.arpRecv ip pkt).msg tid = some m := by
  have freed := getEntry_freed pkt.spa (List.range ARP_NENTRY) s
  rw [arpRecv]
  split
  · exact ⟨rfl, fun _ full => full⟩
  · split
    · rename_i k u lookup
      rw [arpGetEntry] at lookup
      rw [lookup] at freed
      rw [resolve]
      dsimp only
      split
      · rw [(arpNotify_same _ _ _).2.1, arpNotify_msg]
        exact ⟨congrFun freed.thread tid, fun m full => notify_full (freed.full tid m full)⟩
      · exact ⟨congrFun freed.thread tid, freed.full tid⟩
    · rename_i u lookup
      rw [arpGetEntry] at lookup
      rw [lookup] at freed
      have same : (u.announce pkt).thread tid = s.thread tid := congrFun freed.thread tid
      split
      · rw [add]
        split
        · exact ⟨same, freed.full tid⟩
        · rename_i k v alloc
          rw [arpAlloc, Option.map_eq_some_iff] at alloc
          obtain ⟨_, -, rest⟩ := alloc
          cases rest
          exact ⟨same, freed.full tid⟩
      · exact ⟨same, freed.full tid⟩

theorem received_resolved {lookups : Nat} (s : Arp) (tid : Nat) (praddr : Netaddr) :
    (s.received tid praddr lookups ARP_MSG_RESOLVED).thread tid = .inside praddr lookups .attempt := by
  rw [received, if_neg (by decide)]
  exact if_pos rfl

theorem wake_keeps (s : Arp) {t : Nat} (other : tid ≠ t) (praddr : Netaddr) (lookups : Nat) :
    (s.wake t praddr lookups).thread tid = s.thread tid ∧
      ∀ m, s.msg tid = some m → (s.wake t praddr lookups).msg tid = some m := by
  rw [wake]
  split
  · rw [received]
    split <;> exact ⟨setThread_other other _, fun m full => (if_neg other).trans full⟩
  · rw [received, if_pos (.inl rfl)]
    exact ⟨setThread_other other _, fun _ full => full⟩

theorem Answered.receives {lookups l : Nat} {a : Netaddr} {point : Point}
    (answered : Answered s tid praddr lookups) (thread : s.thread tid = .inside a l point) :
    a = praddr ∧ l = lookups ∧
      (s.msg tid = some ARP_MSG_RESOLVED ∧ (point = .receive ∨ point = .waiting) ∨ point = .attempt) := by
  rcases answered with ⟨slot, same | same⟩ | same <;> rw [thread, Lookup.inside.injEq] at same
  · exact ⟨same.1, same.2.1, .inl ⟨slot, .inl same.2.2⟩⟩
  · exact ⟨same.1, same.2.1, .inl ⟨slot, .inr same.2.2⟩⟩
  · exact ⟨same.1, same.2.1, .inr same.2.2⟩

theorem step_answered {lookups : Nat} (answered : Answered s tid praddr lookups)
    (still : op ≠ .attempt tid) (lives : op ≠ .kill tid) (action : step op s = some s') : Answered s' tid praddr lookups := by
  cases op with
  | arpLookup t a =>
      simp only [step] at action
      split at action <;> cases action
      rename_i back
      have other : tid ≠ t := by
        rintro rfl
        rcases answered with ⟨-, same | same⟩ | same <;> rw [back] at same <;> cases same
      exact answered.keep (setThread_other other _) fun _ full => full
  | attempt t =>
      obtain ⟨a, l, thread, rfl⟩ := leave_some action
      have other : tid ≠ t := by
        rintro rfl
        exact still rfl
      obtain ⟨thread, full⟩ := attempt_keeps s other a l
      exact answered.keep thread full
  | arpSendRqst t sends =>
      obtain ⟨a, l, thread, rfl⟩ := leave_some action
      have other : tid ≠ t := by
        rintro rfl
        rcases (answered.receives thread).2.2 with ⟨-, wrong | wrong⟩ | wrong <;> cases wrong
      exact answered.keep (setThread_other other _) fun _ full => full
  | recvclr t =>
      obtain ⟨a, l, thread, rfl⟩ := leave_some action
      have other : tid ≠ t := by
        rintro rfl
        rcases (answered.receives thread).2.2 with ⟨-, wrong | wrong⟩ | wrong <;> cases wrong
      exact answered.keep (setThread_other other _) fun _ full => (if_neg other).trans full
  | recvtime t =>
      obtain ⟨a, l, thread, rfl⟩ := leave_some action
      by_cases here : tid = t
      · subst here
        obtain ⟨rfl, rfl, ⟨slot, -⟩ | wrong⟩ := answered.receives thread
        · right
          simp only [recvtime, slot]
          exact received_resolved _ _ _
        · cases wrong
      · cases slot : s.msg t with
        | some m =>
            have same : s.recvtime t a l = s.wake t a l := by simp only [recvtime, wake, slot]
            rw [same]
            obtain ⟨thread, full⟩ := wake_keeps s here a l
            exact answered.keep thread full
        | none =>
            simp only [recvtime, slot]
            exact answered.keep (setThread_other here _) fun _ full => full
  | timeout t =>
      simp only [step] at action
      split at action
      · rename_i none
        obtain ⟨a, l, thread, rfl⟩ := leave_some action
        have other : tid ≠ t := by
          rintro rfl
          rcases (answered.receives thread).2.2 with ⟨slot, -⟩ | wrong
          · rw [none] at slot
            cases slot
          · cases wrong
        exact answered.keep (setThread_other other _) fun _ full => full
      · cases action
  | wake t =>
      have woken {a : Netaddr} {l : Nat} {point : Point} (thread : s.thread t = .inside a l point)
          (waits : point ≠ .attempt) : Answered (s.wake t a l) tid praddr lookups := by
        by_cases here : tid = t
        · subst here
          obtain ⟨rfl, rfl, ⟨slot, -⟩ | wrong⟩ := answered.receives thread
          · right
            simp only [wake, slot]
            exact received_resolved _ _ _
          · exact absurd wrong waits
        · obtain ⟨thread, full⟩ := wake_keeps s here a l
          exact answered.keep thread full
      simp only [step] at action
      split at action
      · rename_i thread
        split at action <;> cases action
        exact woken thread nofun
      · rename_i thread
        cases action
        exact woken thread nofun
      · cases action
  | send t m =>
      simp only [step] at action
      split at action <;> cases action
      · exact answered
      · rename_i empty
        refine answered.keep rfl fun m' full => ?_
        have other : tid ≠ t := by
          rintro rfl
          rw [full] at empty
          exact empty (.inr rfl)
        exact (if_neg other).trans full
  | kill t =>
      cases action
      have other : tid ≠ t := by
        rintro rfl
        exact lives rfl
      exact answered.keep (setThread_other other _) fun _ full => full
  | create t =>
      simp only [step] at action
      split at action <;> cases action
      rename_i free
      have other : tid ≠ t := by
        rintro rfl
        rcases answered with ⟨-, same | same⟩ | same <;> rw [free] at same <;> cases same
      exact answered.keep (setThread_other other _) fun _ full => (if_neg other).trans full
  | arpRecv ip pkt =>
      cases action
      obtain ⟨thread, full⟩ := @arpRecv_keeps tid s ip pkt
      exact answered.keep thread full
  | tick =>
      cases action
      exact answered

theorem attempt_resolved {lookups : Nat} (more : lookups < ARP_MAX_LOOKUP)
    (lookup : s.arpGetEntry praddr = (some i, t)) (resolved : (t.arptab i).state = .resolved) :
    (s.attempt tid praddr lookups).thread tid = .back (some (t.arptab i).hwaddr) := by
  have found : s.obtain praddr = (some i, t) := by rw [obtain, lookup]
  rw [attempt, if_neg (Nat.not_le_of_lt more), found]
  dsimp only
  rw [if_pos resolved]
  exact if_pos rfl

end

def oneWaiter : Arp :=
  (Lib.run step (fun _ _ => true)
    [.arpLookup 0 reply.spa, .attempt 0, .arpSendRqst 0 true, .recvclr 0, .recvtime 0] (start 0)).getD (start 0)

def oneAnswer : Arp := (oneWaiter.arpRecv reply.spa reply).wake 0 reply.spa 1

end Xinu.Arp
