import Mathlib.Data.Finset.Card
import Mathlib.Order.Interval.Finset.Nat
import Xinu.System.Ports

namespace Xinu

section
variable {taken : Nat → Nat → Bool} {ndev range fuel i first p : Nat}

def Blocked (taken : Nat → Nat → Bool) (ndev lo p : Nat) : Prop := ∃ i, lo ≤ i ∧ i < ndev ∧ taken i p = true

/-- The first port is taken, and this is the next one that no device but device 0 uses. -/
def Overlooked (taken : Nat → Nat → Bool) (ndev range first p : Nat) : Prop :=
  ∃ k, 0 < k ∧ p = (first + k) % range ∧ Blocked taken ndev 0 first ∧
    (∀ j, 0 < j → j < k → Blocked taken ndev 1 ((first + j) % range)) ∧ ¬ Blocked taken ndev 1 p

theorem allocPortLoop_free (long : ndev - i < fuel) (free : ¬ Blocked taken ndev i p) :
    allocPortLoop taken ndev range fuel i p = some p := by
  induction fuel generalizing i with
  | zero => omega
  | succ fuel ih =>
      rw [allocPortLoop]
      by_cases within : i < ndev
      · have here : ¬ taken i p = true := fun taken => free ⟨i, Nat.le_refl i, within, taken⟩
        rw [if_pos within, if_neg here]
        apply ih (by omega)
        rintro ⟨j, later, blocks⟩
        exact free ⟨j, by omega, blocks⟩
      · rw [if_neg within]

theorem allocPortLoop_blocked (long : ndev - i < fuel) (blocked : Blocked taken ndev i p) :
    ∃ left, fuel ≤ left + (ndev - i) ∧ allocPortLoop taken ndev range fuel i p =
      allocPortLoop taken ndev range left 1 ((p + 1) % range) := by
  induction fuel generalizing i with
  | zero => omega
  | succ fuel ih =>
      obtain ⟨j, lower, upper, blocks⟩ := blocked
      rw [allocPortLoop, if_pos (by omega)]
      by_cases here : taken i p = true
      · rw [if_pos here]
        exact ⟨fuel, by omega, rfl⟩
      · have other : i ≠ j := by
          rintro rfl
          exact here blocks
        rw [if_neg here]
        obtain ⟨left, enough, same⟩ := ih (i := i + 1) (by omega) ⟨j, by omega, upper, blocks⟩
        exact ⟨left, by omega, same⟩

theorem allocPortLoop_again {k : Nat} (low : p < range) (long : (k + 1) * (ndev + 1) ≤ fuel)
    (before : ∀ j, j < k → Blocked taken ndev 1 ((p + j) % range))
    (free : ¬ Blocked taken ndev 1 ((p + k) % range)) :
    allocPortLoop taken ndev range fuel 1 p = some ((p + k) % range) := by
  induction k generalizing p fuel with
  | zero =>
      rw [Nat.add_zero, Nat.mod_eq_of_lt low] at free ⊢
      exact allocPortLoop_free (by omega) free
  | succ k ih =>
      have here := before 0 (by omega)
      rw [Nat.add_zero, Nat.mod_eq_of_lt low] at here
      rw [Nat.succ_mul] at long
      obtain ⟨left, enough, same⟩ := @allocPortLoop_blocked _ _ range _ _ _ (show ndev - 1 < fuel by omega) here
      have shift (j : Nat) : ((p + 1) % range + j) % range = (p + (j + 1)) % range := by
        rw [Nat.mod_add_mod]
        congr 1
        omega
      rw [same, ← shift k]
      apply ih (Nat.mod_lt _ (by omega)) (by omega)
      · intro j bound
        rw [shift]
        exact before (j + 1) (by omega)
      · rwa [shift]

theorem exists_unblocked {used : Finset Nat} (inUse : ∀ i p, 0 < i → i < ndev → taken i p = true → p ∈ used)
    (fewer : used.card < range) (first : Nat) : ∃ k, k < range ∧ ¬ Blocked taken ndev 1 ((first + k) % range) := by
  by_contra all
  simp only [not_exists, not_and, not_not] at all
  have every : Finset.range range ⊆ used := by
    intro q low
    rw [Finset.mem_range] at low
    have positive : 0 < range := by omega
    obtain ⟨i, lower, upper, blocks⟩ := all ((q + range - first % range) % range) (Nat.mod_lt _ positive)
    have residue : (first + (q + range - first % range) % range) % range = q := by
      have small := Nat.mod_lt first positive
      rw [Nat.add_mod_mod, ← Nat.mod_add_mod, show first % range + (q + range - first % range) = q + range by omega,
        Nat.add_mod_right, Nat.mod_eq_of_lt low]
    rw [residue] at blocks
    exact inUse i q lower upper blocks
  have count := Finset.card_le_card every
  rw [Finset.card_range] at count
  omega

theorem Overlooked.unique {q : Nat} (miss : Overlooked taken ndev range first p)
    (miss' : Overlooked taken ndev range first q) : p = q := by
  obtain ⟨k, positive, rfl, -, before, free⟩ := miss
  obtain ⟨k', positive', rfl, -, before', free'⟩ := miss'
  rcases Nat.lt_trichotomy k k' with less | same | more
  · exact absurd (before' k positive less) free
  · rw [same]
  · exact absurd (before k' positive' more) free'

theorem allocPortLoop_spec {used : Finset Nat} (inUse : ∀ i p, 0 < i → i < ndev → taken i p = true → p ∈ used)
    (fewer : used.card < range) (low : first < range) :
    ∃ p, allocPortLoop taken ndev range (allocPortFuel ndev range) 0 first = some p ∧ p < range ∧
      (p = first ∧ ¬ Blocked taken ndev 0 first ∨ Overlooked taken ndev range first p) := by
  have whole : allocPortFuel ndev range = range * (ndev + 1) + (ndev + 1) + (ndev + 1) := by
    rw [allocPortFuel, Nat.add_mul, Nat.two_mul, ← Nat.add_assoc]
  by_cases blocked : Blocked taken ndev 0 first
  · obtain ⟨left, enough, again⟩ := @allocPortLoop_blocked _ _ range (allocPortFuel ndev range) _ _
      (by omega) blocked
    have positive : 0 < range := by omega
    have unblocked := exists_unblocked inUse fewer ((first + 1) % range)
    classical
    obtain ⟨bound, free⟩ := Nat.find_spec unblocked
    have before (j : Nat) (less : j < Nat.find unblocked) :
        Blocked taken ndev 1 (((first + 1) % range + j) % range) := by
      have taken := Nat.find_min unblocked less
      rw [not_and, not_not] at taken
      exact taken (by omega)
    generalize Nat.find unblocked = k at bound free before
    have shift (j : Nat) : ((first + 1) % range + j) % range = (first + (j + 1)) % range := by
      rw [Nat.mod_add_mod]
      congr 1
      omega
    have rounds : (k + 1) * (ndev + 1) ≤ range * (ndev + 1) := Nat.mul_le_mul_right _ (by omega)
    refine ⟨((first + 1) % range + k) % range, ?_, Nat.mod_lt _ positive, .inr ?_⟩
    · rw [again]
      exact allocPortLoop_again (Nat.mod_lt _ positive) (by omega) before free
    · refine ⟨k + 1, by omega, shift k, blocked, ?_, free⟩
      intro j lower upper
      have taken := before (j - 1) (by omega)
      rwa [shift, Nat.sub_add_cancel lower] at taken
  · exact ⟨first, allocPortLoop_free (by omega) blocked, low, .inl ⟨rfl, blocked⟩⟩

theorem allocPort_spec {used : Finset Nat} {pstart pmax nextport : Nat} {owns : Nat → Nat → Prop}
    (inUse : ∀ i p, 0 < i → i < ndev → taken i p = true → p ∈ used) (fewer : used.card < pmax - pstart)
    (owned : ∀ i p, i < ndev → owns i (p + pstart) → taken i p = true) :
    ∃ next port, allocPort taken ndev pstart pmax nextport = some (next, port) ∧ pstart ≤ port ∧ port < pmax ∧
      ((∀ i, i < ndev → ¬ owns i port) ↔
        ∀ p, Overlooked taken ndev (pmax - pstart) ((nextport + 1) % (pmax - pstart)) p → ¬ owns 0 (p + pstart)) := by
  obtain ⟨p, found, low, choice⟩ := allocPortLoop_spec inUse fewer
    (Nat.mod_lt (nextport + 1) (by omega : 0 < pmax - pstart))
  refine ⟨p, p + pstart, ?_, by omega, by omega, ?_⟩
  · rw [allocPort]
    simp only [found, Option.map_some]
  rcases choice with ⟨rfl, unblocked⟩ | overlooked
  · refine iff_of_true ?_ ?_
    · intro i bound owns
      exact unblocked ⟨i, Nat.zero_le i, bound, owned i _ bound owns⟩
    · rintro q ⟨k, -, -, blocked, -⟩
      exact absurd blocked unblocked
  · have device : 0 < ndev := by
      obtain ⟨k, -, -, ⟨i, -, bound, -⟩, -⟩ := overlooked
      omega
    constructor
    · intro unused q overlooked'
      rw [overlooked'.unique overlooked]
      exact unused 0 device
    · intro different i bound owns
      rcases Nat.eq_zero_or_pos i with rfl | positive
      · exact different p overlooked owns
      · obtain ⟨k, -, -, -, -, free⟩ := overlooked
        exact free ⟨i, positive, bound, owned i p bound owns⟩

end

theorem tcpTaken_iff {tcptab : List Socket} {i p : Nat} : tcpTaken tcptab i p = true ↔
    ∃ tcb, tcptab[i]? = some tcb ∧ tcb.isOpen = true ∧ tcb.localpt = p + TCP_PSTART := by
  rw [tcpTaken]
  cases tcptab[i]? with
  | none => simp
  | some tcb => simp

theorem udpTaken_iff {s : Udps} {i p : Nat} : udpTaken s i p = true ↔
    (s.udptab i).localpt = p + UDP_PSTART ∨ UDP_PORT_TRACEROUTE = p + UDP_PSTART := by
  rw [udpTaken, Bool.or_eq_true, beq_iff_eq, beq_iff_eq]

theorem tcpAllocPort_spec {tcptab : List Socket} (nextport : Nat) (fewer : tcptab.length < TCP_PMAX - TCP_PSTART) :
    ∃ next port, tcpAllocPort tcptab nextport = some (next, port) ∧ TCP_PSTART ≤ port ∧ port < TCP_PMAX ∧
      ((∀ (i : Nat) (tcb : Socket), tcptab[i]? = some tcb → tcb.isOpen = true → tcb.localpt ≠ port) ↔
        ∀ p, Overlooked (tcpTaken tcptab) tcptab.length (TCP_PMAX - TCP_PSTART)
          ((nextport + 1) % (TCP_PMAX - TCP_PSTART)) p →
          ∀ tcb : Socket, tcptab[0]? = some tcb → tcb.isOpen = true → tcb.localpt ≠ p + TCP_PSTART) := by
  let owns (i port : Nat) : Prop := ∃ tcb : Socket, tcptab[i]? = some tcb ∧ tcb.isOpen = true ∧ tcb.localpt = port
  let used := (Finset.range tcptab.length).image fun i => tcptab[i]?.elim 0 Socket.localpt - TCP_PSTART
  have inUse : ∀ i p, 0 < i → i < tcptab.length → tcpTaken tcptab i p = true → p ∈ used := by
    intro i p _ bound taken
    obtain ⟨tcb, device, -, port⟩ := tcpTaken_iff.mp taken
    rw [Finset.mem_image]
    refine ⟨i, Finset.mem_range.mpr bound, ?_⟩
    rw [device, Option.elim_some, port, Nat.add_sub_cancel]
  have few : used.card < TCP_PMAX - TCP_PSTART :=
    Nat.lt_of_le_of_lt (Finset.card_image_le.trans_eq (Finset.card_range _)) fewer
  have owned : ∀ i p, i < tcptab.length → owns i (p + TCP_PSTART) → tcpTaken tcptab i p = true :=
    fun i p _ owns => tcpTaken_iff.mpr owns
  obtain ⟨next, port, found, lower, upper, unused⟩ :=
    @allocPort_spec _ _ used TCP_PSTART TCP_PMAX nextport owns inUse few owned
  refine ⟨next, port, found, lower, upper, ?_⟩
  constructor
  · intro differ p overlooked tcb device opened same
    exact unused.mp (fun i _ ⟨tcb, device, opened, same⟩ => differ i tcb device opened same) p overlooked
      ⟨tcb, device, opened, same⟩
  · intro differ i tcb device opened same
    exact unused.mpr (fun p overlooked ⟨tcb, device, opened, same⟩ => differ p overlooked tcb device opened same) i
      (List.getElem?_eq_some_iff.mp device).1 ⟨tcb, device, opened, same⟩

theorem udpAllocPort_spec {s : Udps} (nextport : Nat) (fewer : s.nudp < UDP_PMAX - UDP_PSTART) :
    ∃ next port, udpAllocPort s nextport = some (next, port) ∧ UDP_PSTART ≤ port ∧ port < UDP_PMAX ∧
      ((∀ i, i < s.nudp → (s.udptab i).state = .opened → (s.udptab i).localpt ≠ port) ↔
        ∀ p, Overlooked (udpTaken s) s.nudp (UDP_PMAX - UDP_PSTART)
          ((nextport + 1) % (UDP_PMAX - UDP_PSTART)) p →
          (s.udptab 0).state = .opened → (s.udptab 0).localpt ≠ p + UDP_PSTART) := by
  let owns (i port : Nat) : Prop := (s.udptab i).state = .opened ∧ (s.udptab i).localpt = port
  let local' (i : Nat) : Nat := (s.udptab i).localpt - UDP_PSTART
  let used := insert (UDP_PORT_TRACEROUTE - UDP_PSTART) ((Finset.Ico 1 s.nudp).image local')
  have inUse : ∀ i p, 0 < i → i < s.nudp → udpTaken s i p = true → p ∈ used := by
    intro i p positive bound taken
    rw [Finset.mem_insert, Finset.mem_image]
    rcases udpTaken_iff.mp taken with port | trace
    · right
      refine ⟨i, Finset.mem_Ico.mpr ⟨positive, bound⟩, ?_⟩
      show (s.udptab i).localpt - UDP_PSTART = p
      rw [port, Nat.add_sub_cancel]
    · left
      omega
  have few : used.card < UDP_PMAX - UDP_PSTART := by
    have devices : ((Finset.Ico 1 s.nudp).image local').card ≤ (Finset.Ico 1 s.nudp).card := Finset.card_image_le
    have insertion : used.card ≤ ((Finset.Ico 1 s.nudp).image local').card + 1 := Finset.card_insert_le _ _
    rw [Nat.card_Ico] at devices
    rw [UDP_PMAX, UDP_PSTART] at fewer ⊢
    omega
  have owned : ∀ i p, i < s.nudp → owns i (p + UDP_PSTART) → udpTaken s i p = true :=
    fun i p _ owns => udpTaken_iff.mpr (.inl owns.2)
  obtain ⟨next, port, found, lower, upper, unused⟩ :=
    @allocPort_spec _ _ used UDP_PSTART UDP_PMAX nextport owns inUse few owned
  refine ⟨next, port, found, lower, upper, ?_⟩
  constructor
  · intro differ p overlooked opened same
    exact unused.mp (fun i bound ⟨opened, same⟩ => differ i bound opened same) p overlooked ⟨opened, same⟩
  · intro differ i bound opened same
    exact unused.mpr (fun p overlooked ⟨opened, same⟩ => differ p overlooked opened same) i bound ⟨opened, same⟩

/-- With fewer devices than ports both functions come to an end with a port in the range. It is unused
unless it is the one port that the loop has not compared with device 0. -/
theorem allocPort_unused (nextport : Nat) (tcptab : List Socket) (s : Udps)
    (tcpFewer : tcptab.length < TCP_PMAX - TCP_PSTART) (udpFewer : s.nudp < UDP_PMAX - UDP_PSTART) :
    (∃ next port, tcpAllocPort tcptab nextport = some (next, port) ∧ TCP_PSTART ≤ port ∧ port < TCP_PMAX ∧
      ((∀ (i : Nat) (tcb : Socket), tcptab[i]? = some tcb → tcb.isOpen = true → tcb.localpt ≠ port) ↔
        ∀ p, Overlooked (tcpTaken tcptab) tcptab.length (TCP_PMAX - TCP_PSTART)
          ((nextport + 1) % (TCP_PMAX - TCP_PSTART)) p →
          ∀ tcb : Socket, tcptab[0]? = some tcb → tcb.isOpen = true → tcb.localpt ≠ p + TCP_PSTART)) ∧
    ∃ next port, udpAllocPort s nextport = some (next, port) ∧ UDP_PSTART ≤ port ∧ port < UDP_PMAX ∧
      ((∀ i, i < s.nudp → (s.udptab i).state = .opened → (s.udptab i).localpt ≠ port) ↔
        ∀ p, Overlooked (udpTaken s) s.nudp (UDP_PMAX - UDP_PSTART)
          ((nextport + 1) % (UDP_PMAX - UDP_PSTART)) p →
          (s.udptab 0).state = .opened → (s.udptab 0).localpt ≠ p + UDP_PSTART) :=
  ⟨tcpAllocPort_spec nextport tcpFewer, udpAllocPort_spec nextport udpFewer⟩

def twoPorts : List Socket :=
  [⟨true, 10002, 80, ⟨1, [10, 0, 0, 1], Netaddr.ipv4_fits⟩, ⟨1, [10, 0, 0, 2], Netaddr.ipv4_fits⟩⟩,
    ⟨true, 10001, 80, ⟨1, [10, 0, 0, 1], Netaddr.ipv4_fits⟩, ⟨1, [10, 0, 0, 2], Netaddr.ipv4_fits⟩⟩]

def nextPorts : List Socket :=
  [⟨true, 10001, 80, ⟨1, [10, 0, 0, 1], Netaddr.ipv4_fits⟩, ⟨1, [10, 0, 0, 2], Netaddr.ipv4_fits⟩⟩,
    ⟨true, 10002, 80, ⟨1, [10, 0, 0, 1], Netaddr.ipv4_fits⟩, ⟨1, [10, 0, 0, 2], Netaddr.ipv4_fits⟩⟩,
    ⟨false, 10003, 0, ⟨0, [], Netaddr.empty_fits⟩, ⟨0, [], Netaddr.empty_fits⟩⟩]

def udpDevice (state : UdpState) (localpt : Nat) : Udp :=
  { state, inPool := 0, icount := 0, istart := 0, inb := fun _ _ => 0, isem := ⟨0, []⟩, localpt,
    remotept := 0, localip := ⟨0, [], Netaddr.empty_fits⟩, remoteip := ⟨0, [], Netaddr.empty_fits⟩, passive := false,
    noblock := false, bindfirst := false }

def nextUdps : Udps :=
  { order := .little, nudp := 3,
    udptab := fun i => if i = 0 then udpDevice .opened 10001 else if i = 1 then udpDevice .opened 10002 else udpDevice .free 0,
    readers := fun _ => none, woken := fun _ => [], unsignalled := fun _ => 0, arrived := fun _ => [], taken := fun _ => [],
    returned := fun _ => 0, data := fun _ => [] }

theorem overlooked_third {taken : Nat → Nat → Bool} (zero : taken 0 1 = true) (one : taken 1 2 = true)
    (free : taken 1 3 = false) (free' : taken 2 3 = false) : Overlooked taken 3 55000 1 3 := by
  refine ⟨2, by decide, rfl, ⟨0, by decide, by decide, zero⟩, ?_, ?_⟩
  · intro j lo hi
    obtain rfl : j = 1 := by omega
    exact ⟨1, by decide, by decide, one⟩
  · rintro ⟨i, lo, hi, used⟩
    obtain rfl | rfl : i = 1 ∨ i = 2 := by omega
    · rw [free] at used
      cases used
    · rw [free'] at used
      cases used

theorem allocPort_unused_two :
    (∃ next port, tcpAllocPort nextPorts 0 = some (next, port) ∧ TCP_PSTART ≤ port ∧ port < TCP_PMAX ∧
      ∀ (i : Nat) (tcb : Socket), nextPorts[i]? = some tcb → tcb.isOpen = true → tcb.localpt ≠ port) ∧
    ∃ next port, udpAllocPort nextUdps 0 = some (next, port) ∧ UDP_PSTART ≤ port ∧ port < UDP_PMAX ∧
      ∀ i < 3, (nextUdps.udptab i).state = .opened → (nextUdps.udptab i).localpt ≠ port := by
  obtain ⟨⟨next, port, found, lower, upper, tcp⟩, next', port', found', lower', upper', udp⟩ :=
    allocPort_unused 0 nextPorts nextUdps (by decide) (by decide)
  refine ⟨⟨next, port, found, lower, upper, tcp.mpr ?_⟩, next', port', found', lower', upper', udp.mpr ?_⟩
  · have third : Overlooked (tcpTaken nextPorts) 3 55000 1 3 :=
      overlooked_third (by decide) (by decide) (by decide) (by decide)
    rintro p miss tcb first -
    cases first
    rw [miss.unique third]
    decide
  · have third : Overlooked (udpTaken nextUdps) 3 55000 1 3 :=
      overlooked_third (by decide) (by decide) (by decide) (by decide)
    rintro p miss -
    rw [miss.unique third]
    decide

theorem allocPort_in_use : tcpAllocPort twoPorts 0 = some (2, 10002) ∧
    ∃ tcb, twoPorts[0]? = some tcb ∧ tcb.isOpen = true ∧ tcb.localpt = 10002 :=
  ⟨by decide +kernel, _, rfl, rfl, rfl⟩

end Xinu
