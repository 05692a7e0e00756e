import Xinu.Proof.Network.Arp

namespace Xinu.Arp

variable {Mask : Type} {off : Mask → Mask} {rounds : Rounds} {praddr : Netaddr} {mask : Mask}

def Hit (s : Arp) (praddr : Netaddr) : Prop :=
  ∃ i, (s.obtain praddr).1 = some i ∧ ((s.obtain praddr).2.arptab i).state = .resolved

def Rounds.Again (rounds : Rounds) (praddr : Netaddr) (round : Nat) : Prop :=
  ∃ i, ((rounds.table round).obtain praddr).1 = some i ∧
    (((rounds.table round).obtain praddr).2.arptab i).state ≠ .resolved ∧
    (((rounds.table round).obtain praddr).2.arptab i).waiting.length < ARP_NTHRWAIT ∧
    rounds.sends round = true ∧ rounds.recvtime round ≠ TIMEOUT ∧ rounds.recvtime round ≠ SYSERR

def Rounds.Hits (rounds : Rounds) (praddr : Netaddr) (first count : Nat) : Prop :=
  ∃ round, first ≤ round ∧ round < first + count ∧ Hit (rounds.table round) praddr ∧
    ∀ earlier, first ≤ earlier → earlier < round → rounds.Again praddr earlier

theorem Hit.stops {round : Nat} (hit : Hit (rounds.table round) praddr) : ¬ rounds.Again praddr round := by
  rintro ⟨i, found, unresolved, -⟩
  obtain ⟨j, found', resolved⟩ := hit
  rw [found] at found'
  cases found'
  exact unresolved resolved

theorem Rounds.hits_succ (first count : Nat) : rounds.Hits praddr first (count + 1) ↔
    Hit (rounds.table first) praddr ∨ (rounds.Again praddr first ∧ rounds.Hits praddr (first + 1) count) := by
  constructor
  · rintro ⟨round, lower, upper, hit, earlier⟩
    rcases Nat.eq_or_lt_of_le lower with rfl | later
    · exact .inl hit
    · refine .inr ⟨earlier first (Nat.le_refl _) later, round, later, by omega, hit, ?_⟩
      exact fun other above below => earlier other (by omega) below
  · rintro (hit | ⟨again, round, lower, upper, hit, earlier⟩)
    · exact ⟨first, Nat.le_refl _, by omega, hit, fun _ above below => absurd above (by omega)⟩
    · refine ⟨round, by omega, by omega, hit, fun other above below => ?_⟩
      rcases Nat.eq_or_lt_of_le above with rfl | later
      · exact again
      · exact earlier other later below

theorem lookupLoop_mask (fuel first : Nat) (mask : Mask) :
    (rounds.Hits praddr first fuel → lookupLoop off rounds praddr fuel first mask = (off mask, OK)) ∧
    (¬ rounds.Hits praddr first fuel → lookupLoop off rounds praddr fuel first mask = (mask, SYSERR)) := by
  induction fuel generalizing first with
  | zero => exact ⟨fun ⟨_, lower, upper, _⟩ => absurd upper (by omega), fun _ => rfl⟩
  | succ fuel ih =>
      rw [Rounds.hits_succ, lookupLoop]
      obtain ⟨later, none⟩ := ih (first + 1)
      rcases found : (rounds.table first).obtain praddr with ⟨_ | i, s⟩
      · have missed : ¬ Hit (rounds.table first) praddr := by
          rintro ⟨i, found', -⟩
          rw [found] at found'
          cases found'
        have stops : ¬ rounds.Again praddr first := by
          rintro ⟨i, found', -⟩
          rw [found] at found'
          cases found'
        exact ⟨fun hits => absurd hits (by tauto), fun _ => rfl⟩
      · have hit : Hit (rounds.table first) praddr ↔ (s.arptab i).state = .resolved := by
          rw [Hit, found]
          simp
        have again : rounds.Again praddr first ↔ (s.arptab i).state ≠ .resolved ∧
            (s.arptab i).waiting.length < ARP_NTHRWAIT ∧ rounds.sends first = true ∧
              rounds.recvtime first ≠ TIMEOUT ∧ rounds.recvtime first ≠ SYSERR := by
          rw [Rounds.Again, found]
          simp
        rw [hit, again]
        dsimp only
        split
        case isTrue resolved => exact ⟨fun _ => rfl, fun missed => absurd (.inl resolved) missed⟩
        case isFalse unresolved =>
          split
          case isTrue full =>
            refine ⟨fun hits => absurd hits ?_, fun _ => rfl⟩
            rintro (resolved | ⟨⟨-, room, -⟩, -⟩)
            · exact unresolved resolved
            · omega
          case isFalse room =>
            split
            case isTrue fails =>
              refine ⟨fun hits => absurd hits ?_, fun _ => rfl⟩
              rintro (resolved | ⟨⟨-, -, sends, -⟩, -⟩)
              · exact unresolved resolved
              · rw [fails] at sends
                cases sends
            case isFalse sends =>
              rw [Bool.not_eq_false] at sends
              split
              case isTrue late =>
                refine ⟨fun hits => absurd hits ?_, fun _ => rfl⟩
                rintro (resolved | ⟨⟨-, -, -, timeout, syserr⟩, -⟩)
                · exact unresolved resolved
                · exact late.elim timeout syserr
              case isFalse woken =>
                rw [not_or] at woken
                refine ⟨fun hits => later ?_, fun missed => none fun hits => missed (.inr ?_)⟩
                · rcases hits with resolved | ⟨-, hits⟩
                  · exact absurd resolved unresolved
                  · exact hits
                · exact ⟨⟨unresolved, Nat.not_le.mp room, sends, woken.1, woken.2⟩, hits⟩

/-- Every way through `arpLookup` leaves the mask just when none of its rounds finds the address resolved, or
the interrupts were disabled before. -/
theorem lookupMask_restored (off : Mask → Mask) (rounds : Rounds) (praddr : Option Netaddr) (mask : Mask) :
    (lookupMask off rounds praddr mask).1 = mask ↔
      off mask = mask ∨ ∀ addr, praddr = some addr → ¬ rounds.Hits addr 0 ARP_MAX_LOOKUP := by
  cases praddr with
  | none => exact iff_of_true rfl (.inr nofun)
  | some addr =>
      obtain ⟨hit, missed⟩ := @lookupLoop_mask _ off rounds addr ARP_MAX_LOOKUP 0 mask
      by_cases hits : rounds.Hits addr 0 ARP_MAX_LOOKUP
      · rw [lookupMask, hit hits]
        exact ⟨.inl, fun either => either.elim id fun none => absurd hits (none addr rfl)⟩
      · rw [lookupMask, missed hits]
        exact iff_of_true rfl (.inr fun _ same => by cases same; exact hits)

def answered : Arp := (start 0).setEntry 0
  { state := .resolved, hwaddr := reply.sha, praddr := reply.spa, expires := 300, waiting := [] }

theorem lookupMask_disabled :
    lookupMask (fun _ => false) ⟨fun _ => answered, fun _ => true, fun _ => ARP_MSG_RESOLVED⟩ (some reply.spa) true =
      (false, OK) := by
  decide +kernel

end Xinu.Arp
