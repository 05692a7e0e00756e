import Xinu.Proof.Network.Input
import Xinu.System.TcpOutput

namespace Xinu.Tcp
open Lib (Byte load store)

inductive Opt
  | nop
  | mss (hi lo : Byte)
  | other (kind : Byte) (data : List Byte) (unknown : TCP_OPT_MSS < kind.toNat) (short : data.length + 2 < 256)

namespace Opt

def bytes : Opt → List Byte
  | nop => [1]
  | mss hi lo => [2, 4, hi, lo]
  | other kind data _ _ => kind :: BitVec.ofNat 8 (data.length + 2) :: data

def known : Opt → Prop
  | other .. => False
  | _ => True

end Opt

def encode (opts : List Opt) : List Byte := opts.flatMap Opt.bytes

def lastMss : List Opt → Option (Byte × Byte)
  | [] => none
  | .mss hi lo :: opts => (lastMss opts).or (some (hi, lo))
  | _ :: opts => lastMss opts

structure Options where
  opts : List Opt
  tail : Option (List Byte)

namespace Options

def closing : Option (List Byte) → List Byte
  | none => []
  | some tail => 0 :: tail

def bytes (list : Options) : List Byte := encode list.opts ++ closing list.tail

end Options

def withoutHeader (size : Nat) : Nat := (size + 2 ^ 16 - TCP_HDR_LEN) % 2 ^ 16

def sndmssAfter (size : Byte → Byte → Nat) (opts : List Opt) (sndmss : Nat) : Nat :=
  match lastMss opts with
  | none => sndmss
  | some (hi, lo) => withoutHeader (size hi lo)

def bigEndian (hi lo : Byte) : Nat := 256 * hi.toNat + lo.toNat
def littleEndian (hi lo : Byte) : Nat := hi.toNat + 256 * lo.toNat

/-- What `tcpRecvOpts` makes of the options, wherever they are and whatever is around them. -/
structure Understood (offset : Nat) (list : Options) (mem : Int → Byte) (tcp : Int) (sndmss : Nat) : Prop where
  inside : ∀ a ∈ (tcpRecvOpts mem tcp offset sndmss).2, tcp + TCP_HDR_LEN ≤ a ∧ a < tcp + offset2octets offset
  -- the kind of every option is read, and that of the end
  visits : ∀ pre post, list.opts = pre ++ post → (post = [] → list.tail.isSome) →
    tcp + TCP_HDR_LEN + (encode pre).length ∈ (tcpRecvOpts mem tcp offset sndmss).2
  -- the data of an unknown option is not
  skips : ∀ pre kind data unknown short post, list.opts = pre ++ .other kind data unknown short :: post →
    ∀ i : Nat, i < data.length →
      tcp + TCP_HDR_LEN + (encode pre).length + 2 + i ∉ (tcpRecvOpts mem tcp offset sndmss).2
  size : (tcpRecvOpts mem tcp offset sndmss).1 = sndmssAfter bigEndian list.opts sndmss

/-- No unknown options, an end octet unless there is nothing at all, and a last segment size that reads
the same in both directions. -/
structure Plain (list : Options) : Prop where
  known : ∀ o ∈ list.opts, o.known
  closed : list.bytes ≠ [] → list.tail.isSome
  even : ∀ hi lo, lastMss list.opts = some (hi, lo) → hi = lo

variable {mem : Int → Byte} {endopt p tcp : Int} {fuel sndmss offset : Nat} {opts : List Opt} {list : Options}

theorem encode_cons (o : Opt) (opts : List Opt) : encode (o :: opts) = o.bytes ++ encode opts := rfl

theorem encode_append (pre post : List Opt) : encode (pre ++ post) = encode pre ++ encode post := by
  simp [encode]

theorem Opt.bytes_pos (o : Opt) : 0 < o.bytes.length := by
  cases o <;> simp [Opt.bytes]

theorem length_le_encode (opts : List Opt) : opts.length ≤ (encode opts).length := by
  induction opts with
  | nil => exact Nat.le_refl _
  | cons o opts ih =>
      have positive := o.bytes_pos
      rw [encode_cons, List.length_append, List.length_cons]
      omega

theorem optsLoop_end (stop : mem p = 0 ∨ endopt ≤ p) :
    optsLoop mem endopt (fuel + 1) p sndmss = (sndmss, [p]) := by
  rw [optsLoop, if_neg]
  rintro ⟨octet, before⟩
  rcases stop with stop | stop
  · rw [stop] at octet
    exact octet rfl
  · omega

theorem optsLoop_mss (octet : mem p = 2) (before : p < endopt) :
    optsLoop mem endopt (fuel + 1) p sndmss =
      ((optsLoop mem endopt fuel (p + 4) (withoutHeader (littleEndian (mem (p + 2)) (mem (p + 3))))).1,
        p :: (p + 2) :: (p + 3) ::
          (optsLoop mem endopt fuel (p + 4) (withoutHeader (littleEndian (mem (p + 2)) (mem (p + 3))))).2) := by
  rw [optsLoop, octet, if_pos ⟨by decide, before⟩, if_pos (by decide)]
  rfl

theorem optsLoop_step (octet : mem p ≠ 0) (apart : mem p ≠ 2) (before : p < endopt) :
    optsLoop mem endopt (fuel + 1) p sndmss =
      ((optsLoop mem endopt fuel (p + 1) sndmss).1, p :: (optsLoop mem endopt fuel (p + 1) sndmss).2) := by
  have more : (mem p).toNat ≠ TCP_OPT_END := fun zero => octet (BitVec.eq_of_toNat_eq zero)
  have unlike : (mem p).toNat ≠ TCP_OPT_MSS := fun two => apart (BitVec.eq_of_toNat_eq two)
  rw [optsLoop, if_pos ⟨more, before⟩, if_neg unlike]

def Holds (mem : Int → Byte) (p : Int) (bytes : List Byte) : Prop := load mem p bytes.length = bytes

theorem holds_append {bytes bytes' : List Byte} :
    Holds mem p (bytes ++ bytes') ↔ Holds mem p bytes ∧ Holds mem (p + bytes.length) bytes' := by
  rw [Holds, List.length_append, Lib.load_append]
  constructor
  · intro same
    exact List.append_inj same (by simp)
  · rintro ⟨front, back⟩
    rw [front, back]

theorem holds_cons {byte : Byte} {bytes : List Byte} :
    Holds mem p (byte :: bytes) ↔ mem p = byte ∧ Holds mem (p + 1) bytes := by
  rw [Holds, List.length_cons, Lib.load_succ, List.cons.injEq]
  rfl

theorem holds_congr {mem' : Int → Byte} {bytes : List Byte}
    (same : ∀ i : Int, p ≤ i → i < p + bytes.length → mem' i = mem i) (holds : Holds mem p bytes) :
    Holds mem' p bytes := by
  rw [Holds, Lib.load_congr same]
  exact holds

theorem sndmssAfter_cons (size : Byte → Byte → Nat) (o : Opt) (opts : List Opt) (sndmss : Nat) :
    sndmssAfter size (o :: opts) sndmss = sndmssAfter size opts (sndmssAfter size [o] sndmss) := by
  cases o with
  | nop => rfl
  | other => rfl
  | mss hi lo =>
      rw [sndmssAfter, sndmssAfter, lastMss]
      cases lastMss opts <;> rfl

theorem optsLoop_known {o : Opt} (sndmss : Nat) (known : o.known) (stored : Holds mem p o.bytes)
    (fits : p + o.bytes.length ≤ endopt) :
    ∃ reads, p ∈ reads ∧ (∀ a ∈ reads, p ≤ a ∧ a < p + o.bytes.length) ∧
      ∀ fuel, optsLoop mem endopt (fuel + 1) p sndmss =
        ((optsLoop mem endopt fuel (p + o.bytes.length) (sndmssAfter littleEndian [o] sndmss)).1,
          reads ++ (optsLoop mem endopt fuel (p + o.bytes.length) (sndmssAfter littleEndian [o] sndmss)).2) := by
  cases o with
  | other => cases known
  | nop =>
      obtain ⟨octet, -⟩ := holds_cons.mp stored
      refine ⟨[p], .head _, ?_, ?_⟩
      · intro a member
        rw [List.mem_singleton] at member
        simp only [Opt.bytes, List.length_singleton]
        omega
      · intro fuel
        simp only [Opt.bytes, List.length_singleton] at fits
        rw [optsLoop_step (by rw [octet]; decide) (by rw [octet]; decide) (by omega)]
        rfl
  | mss hi lo =>
      simp only [Opt.bytes, holds_cons] at stored
      obtain ⟨octet, -, high, low, -⟩ := stored
      have high : mem (p + 2) = hi := by rw [← high, Int.add_assoc]; rfl
      have low : mem (p + 3) = lo := by rw [← low, Int.add_assoc, Int.add_assoc]; rfl
      simp only [Opt.bytes, List.length_cons, List.length_nil] at fits ⊢
      refine ⟨[p, p + 2, p + 3], .head _, ?_, ?_⟩
      · intro a member
        simp only [List.mem_cons, List.not_mem_nil, or_false] at member
        omega
      · intro fuel
        rw [optsLoop_mss octet (by omega), high, low]
        rfl

theorem optsLoop_plain (sndmss : Nat) (known : ∀ o ∈ opts, o.known) (stored : Holds mem p (encode opts))
    (fits : p + (encode opts).length ≤ endopt) :
    ∃ reads, (∀ a ∈ reads, p ≤ a ∧ a < p + (encode opts).length) ∧
      (∀ pre post, opts = pre ++ post → post ≠ [] → p + (encode pre).length ∈ reads) ∧
      ∀ fuel, optsLoop mem endopt (fuel + opts.length) p sndmss =
        ((optsLoop mem endopt fuel (p + (encode opts).length) (sndmssAfter littleEndian opts sndmss)).1,
          reads ++
            (optsLoop mem endopt fuel (p + (encode opts).length) (sndmssAfter littleEndian opts sndmss)).2) := by
  induction opts generalizing p sndmss with
  | nil =>
      refine ⟨[], ?_, ?_, ?_⟩
      · intro a member
        cases member
      · intro pre post split more
        exact absurd (List.append_eq_nil_iff.mp split.symm).2 more
      · intro fuel
        simp [encode, sndmssAfter, lastMss]
  | cons o opts ih =>
      rw [encode_cons, holds_append] at stored
      have length : (encode (o :: opts)).length = o.bytes.length + (encode opts).length := by
        rw [encode_cons, List.length_append]
      have next : p + (encode (o :: opts)).length = p + o.bytes.length + (encode opts).length := by omega
      obtain ⟨reads, visited, near, one⟩ := optsLoop_known sndmss (known o (.head _)) stored.1
        (show _ ≤ endopt by omega)
      obtain ⟨reads', near', visited', rest⟩ := ih (sndmssAfter littleEndian [o] sndmss)
        (fun o member => known o (.tail _ member)) stored.2 (by omega)
      refine ⟨reads ++ reads', ?_, ?_, ?_⟩
      · intro a member
        rcases List.mem_append.mp member with member | member
        · have bound := near a member
          omega
        · have bound := near' a member
          omega
      · intro pre post split more
        cases pre with
        | nil =>
            have here : p + (encode []).length = p := by simp [encode]
            rw [here]
            exact List.mem_append_left _ visited
        | cons o' pre =>
            obtain ⟨rfl, behind⟩ := List.cons.inj split
            have place : p + (encode (o :: pre)).length = p + o.bytes.length + (encode pre).length := by
              rw [encode_cons, List.length_append]
              omega
            rw [place]
            exact List.mem_append_right _ (visited' pre post behind more)
      · intro fuel
        rw [List.length_cons, ← Nat.add_assoc, one, rest, next, sndmssAfter_cons littleEndian o opts sndmss, List.append_assoc]

theorem tcpRecvOpts_loop (mem : Int → Byte) (tcp : Int) (fits : offset2octets offset = TCP_HDR_LEN + list.bytes.length)
    (some : list.bytes ≠ []) (sndmss : Nat) :
    tcpRecvOpts mem tcp offset sndmss =
      optsLoop mem (tcp + offset2octets offset) (offset2octets offset + 1) (tcp + TCP_HDR_LEN) sndmss := by
  have positive := List.length_pos_iff.mpr some
  have last : tcp + (TCP_HDR_LEN : Nat) + ((offset2octets offset : Int) - (TCP_HDR_LEN : Nat)) =
      tcp + offset2octets offset := by omega
  rw [tcpRecvOpts, if_neg (by omega)]
  simp only [last]

theorem closed_octets (closed : list.bytes ≠ [] → list.tail.isSome) (none : list.tail = none) :
    list.bytes = [] := by
  by_contra some
  have tail := closed some
  rw [none] at tail
  cases tail

theorem tcpRecvOpts_plain (stored : Holds mem (tcp + TCP_HDR_LEN) list.bytes)
    (fits : offset2octets offset = TCP_HDR_LEN + list.bytes.length)
    (known : ∀ o ∈ list.opts, o.known) (closed : list.bytes ≠ [] → list.tail.isSome) (sndmss : Nat) :
    (tcpRecvOpts mem tcp offset sndmss).1 = sndmssAfter littleEndian list.opts sndmss ∧
      (∀ a ∈ (tcpRecvOpts mem tcp offset sndmss).2,
        tcp + TCP_HDR_LEN ≤ a ∧ a < tcp + offset2octets offset) ∧
      ∀ pre post, list.opts = pre ++ post → (post = [] → list.tail.isSome) →
        tcp + TCP_HDR_LEN + (encode pre).length ∈ (tcpRecvOpts mem tcp offset sndmss).2 := by
  cases end' : list.tail with
  | none =>
      have empty := closed_octets closed end'
      have nothing : list.opts = [] := by
        have length := length_le_encode list.opts
        rw [Options.bytes, List.append_eq_nil_iff] at empty
        rw [empty.1] at length
        exact List.length_eq_zero_iff.mp (Nat.le_zero.mp length)
      rw [tcpRecvOpts, if_pos (by rw [fits, empty]; rfl), nothing]
      refine ⟨rfl, ?_, ?_⟩
      · intro a member
        cases member
      · intro pre post split more
        have last := more (List.append_eq_nil_iff.mp split.symm).2
        cases last
  | some tail =>
      have octets : list.bytes = encode list.opts ++ 0 :: tail := by rw [Options.bytes, end', Options.closing]
      have length : list.bytes.length = (encode list.opts).length + (tail.length + 1) := by
        rw [octets, List.length_append, List.length_cons]
      have short := length_le_encode list.opts
      rw [tcpRecvOpts_loop mem tcp fits (by rw [octets]; simp) sndmss]
      rw [octets, holds_append, holds_cons] at stored
      obtain ⟨front, stop, -⟩ := stored
      obtain ⟨reads, near, visited, walk⟩ := optsLoop_plain sndmss known front
        (show _ ≤ tcp + (offset2octets offset : Int) by omega)
      have fuel : offset2octets offset + 1 =
          (offset2octets offset - list.opts.length) + 1 + list.opts.length := by omega
      rw [fuel, walk, optsLoop_end (Or.inl stop)]
      refine ⟨rfl, ?_, ?_⟩
      · intro a member
        rcases List.mem_append.mp member with member | member
        · have bound := near a member
          omega
        · rw [List.mem_singleton] at member
          omega
      · intro pre post split _
        cases post with
        | nil =>
            rw [List.append_nil] at split
            rw [split]
            exact List.mem_append_right _ (.head _)
        | cons o post => exact List.mem_append_left _ (visited pre (o :: post) split (by simp))

theorem open_outside (stored : Holds mem (tcp + TCP_HDR_LEN) list.bytes)
    (fits : offset2octets offset = TCP_HDR_LEN + list.bytes.length)
    (known : ∀ o ∈ list.opts, o.known) (some : list.bytes ≠ []) (none : list.tail = none) (sndmss : Nat) :
    tcp + (offset2octets offset : Int) ∈ (tcpRecvOpts mem tcp offset sndmss).2 := by
  have octets : list.bytes = encode list.opts := by
    rw [Options.bytes, none, Options.closing, List.append_nil]
  have length := congrArg List.length octets
  have short := length_le_encode list.opts
  rw [tcpRecvOpts_loop mem tcp fits some sndmss]
  rw [octets] at stored
  obtain ⟨reads, -, -, walk⟩ := optsLoop_plain sndmss known stored
    (show _ ≤ tcp + (offset2octets offset : Int) by omega)
  have fuel : offset2octets offset + 1 =
      (offset2octets offset - list.opts.length) + 1 + list.opts.length := by omega
  have last : tcp + (TCP_HDR_LEN : Nat) + (encode list.opts).length = tcp + offset2octets offset := by omega
  rw [fuel, walk, last, optsLoop_end (Or.inr (Int.le_refl _))]
  exact List.mem_append_right _ (.head _)

theorem first_unknown (opts : List Opt) : (∀ o ∈ opts, o.known) ∨
    ∃ pre kind data unknown short post, opts = pre ++ .other kind data unknown short :: post ∧
      ∀ o ∈ pre, o.known := by
  induction opts with
  | nil => exact Or.inl (by simp)
  | cons o opts ih =>
      cases o with
      | other kind data unknown short => exact Or.inr ⟨[], kind, data, unknown, short, opts, rfl, by simp⟩
      | nop | mss =>
          rcases ih with known | ⟨pre, kind, data, unknown, short, post, rfl, known⟩
          · exact Or.inl (List.forall_mem_cons.mpr ⟨trivial, known⟩)
          · exact Or.inr ⟨_ :: pre, kind, data, unknown, short, post, rfl,
              List.forall_mem_cons.mpr ⟨trivial, known⟩⟩

theorem optsLoop_reads : p ∈ (optsLoop mem endopt (fuel + 1) p sndmss).2 := by
  rw [optsLoop]
  split
  · split <;> exact .head _
  · exact .head _

theorem optsLoop_unknown (fuel sndmss : Nat) {kind : Byte} {data : List Byte} (unknown : TCP_OPT_MSS < kind.toNat)
    (short : data.length + 2 < 256)
    (stored : Holds mem p (kind :: BitVec.ofNat 8 (data.length + 2) :: data))
    (fits : p + data.length + 2 ≤ endopt) :
    (data = [] ∧ p + 2 ∉ (optsLoop mem endopt (fuel + 3) p sndmss).2 ∧
        p + 3 ∈ (optsLoop mem endopt (fuel + 3) p sndmss).2) ∨
      (data ≠ [] ∧ p + 2 ∈ (optsLoop mem endopt (fuel + 3) p sndmss).2) := by
  simp only [holds_cons] at stored
  obtain ⟨octet, length, -⟩ := stored
  have value : (mem (p + 1)).toNat = data.length + 2 := by
    rw [length, BitVec.toNat_ofNat, Nat.mod_eq_of_lt (by omega)]
  have more : mem p ≠ 0 := by
    intro zero
    rw [← octet, zero] at unknown
    cases unknown
  have unlike : mem p ≠ 2 := by
    intro two
    rw [← octet, two] at unknown
    exact absurd unknown (by decide)
  rw [optsLoop_step more unlike (by omega)]
  cases data with
  | nil =>
      have two : mem (p + 1) = 2 := BitVec.eq_of_toNat_eq value
      simp only [List.length_nil] at fits
      rw [optsLoop_mss two (by omega)]
      refine Or.inl ⟨rfl, ?_, ?_⟩
      · intro member
        simp only [List.mem_cons] at member
        rcases member with same | same | same | same | member
        · omega
        · omega
        · omega
        · omega
        · have bound := (optsLoop_within _ _ member).1
          omega
      · have place : p + 1 + 2 = p + 3 := by omega
        rw [place]
        exact .tail _ (.tail _ (.head _))
  | cons d data =>
      rw [List.length_cons] at value fits
      have more : mem (p + 1) ≠ 0 := by
        intro zero
        rw [zero] at value
        cases value
      have unlike : mem (p + 1) ≠ 2 := by
        intro two
        rw [two] at value
        have three : 2 = data.length + 1 + 2 := value
        omega
      rw [optsLoop_step more unlike (by omega)]
      have place : p + 1 + 1 = p + 2 := by omega
      rw [place]
      exact Or.inr ⟨by simp, .tail _ (.tail _ optsLoop_reads)⟩

theorem unknown_lost (stored : Holds mem (tcp + TCP_HDR_LEN) list.bytes)
    (fits : offset2octets offset = TCP_HDR_LEN + list.bytes.length) {pre post : List Opt} {kind : Byte}
    {data : List Byte} {unknown : TCP_OPT_MSS < kind.toNat} {short : data.length + 2 < 256}
    (split : list.opts = pre ++ .other kind data unknown short :: post) (known : ∀ o ∈ pre, o.known)
    (sndmss : Nat) : ¬ Understood offset list mem tcp sndmss := by
  intro understood
  let o : Opt := .other kind data unknown short
  have octets : list.bytes = encode pre ++ (o.bytes ++ (encode post ++ Options.closing list.tail)) := by
    rw [Options.bytes, split, encode_append, encode_cons, List.append_assoc, List.append_assoc]
  have size : o.bytes.length = data.length + 2 := rfl
  have length : list.bytes.length =
      (encode pre).length + (data.length + 2 + (encode post ++ Options.closing list.tail).length) := by
    rw [octets, List.length_append, List.length_append, size]
  have some : list.bytes ≠ [] := List.length_pos_iff.mp (by omega)
  have few := length_le_encode pre
  rw [octets, holds_append, holds_append] at stored
  obtain ⟨reads, near, -, walk⟩ := optsLoop_plain sndmss known stored.1
    (show _ ≤ tcp + (offset2octets offset : Int) by omega)
  have fuel : offset2octets offset + 1 = (offset2octets offset - 2 - pre.length) + 3 + pre.length := by omega
  have loop := tcpRecvOpts_loop mem tcp fits some sndmss
  rw [fuel, walk] at loop
  have lost := optsLoop_unknown (offset2octets offset - 2 - pre.length)
    (sndmssAfter littleEndian pre sndmss) unknown short stored.2.1
    (show _ ≤ tcp + (offset2octets offset : Int) by omega)
  rcases lost with ⟨rfl, missed, beyond⟩ | ⟨some, data_read⟩
  · by_cases last : encode post ++ Options.closing list.tail = []
    · -- the next octet that is read lies behind the options
      have outside := (understood.inside _ (by
        rw [loop]
        exact List.mem_append_right _ beyond)).2
      rw [last] at length
      simp only [List.length_nil] at length
      omega
    · have more : post = [] → list.tail.isSome := by
        intro nothing
        rw [nothing] at last
        cases end' : list.tail with
        | none =>
            rw [end'] at last
            exact absurd rfl last
        | some tail => rfl
      have visited := understood.visits (pre ++ [o]) post (by rw [split, List.append_assoc]; rfl) more
      have place : (encode (pre ++ [o])).length = (encode pre).length + 2 := by
        rw [encode_append, List.length_append]
        rfl
      rw [loop, place] at visited
      rcases List.mem_append.mp visited with before | behind
      · have bound := near _ before
        omega
      · apply missed
        rw [Int.natCast_add, ← Int.add_assoc] at behind
        exact behind
  · have positive := List.length_pos_iff.mpr some
    apply understood.skips pre kind data unknown short post split 0 positive
    rw [loop]
    simp only [Int.ofNat_zero, Int.add_zero]
    exact List.mem_append_right _ data_read

theorem withoutHeader_inj {a b : Nat} (bound : a < 2 ^ 16) (bound' : b < 2 ^ 16) :
    withoutHeader a = withoutHeader b ↔ a = b := by
  constructor
  · intro same
    simp only [withoutHeader, TCP_HDR_LEN] at same
    omega
  · intro same
    rw [same]

theorem withoutHeader_even {hi lo : Byte} :
    withoutHeader (littleEndian hi lo) = withoutHeader (bigEndian hi lo) ↔ hi = lo := by
  have high := hi.isLt
  have low := lo.isLt
  rw [withoutHeader_inj (by simp only [littleEndian]; omega) (by simp only [bigEndian]; omega)]
  simp only [littleEndian, bigEndian]
  constructor
  · intro same
    apply BitVec.eq_of_toNat_eq
    omega
  · intro same
    rw [same]
    omega

theorem understood_iff (stored : Holds mem (tcp + TCP_HDR_LEN) list.bytes)
    (fits : offset2octets offset = TCP_HDR_LEN + list.bytes.length) (sndmss : Nat) :
    Understood offset list mem tcp sndmss ↔ Plain list := by
  constructor
  · intro understood
    rcases first_unknown list.opts with known | ⟨pre, kind, data, unknown, short, post, split, known⟩
    · have closed : list.bytes ≠ [] → list.tail.isSome := by
        intro some
        cases end' : list.tail with
        | some tail => rfl
        | none =>
            have outside := understood.inside _ (open_outside stored fits known some end' sndmss)
            omega
      refine ⟨known, closed, ?_⟩
      intro hi lo last
      have size := understood.size
      rw [(tcpRecvOpts_plain stored fits known closed sndmss).1] at size
      simp only [sndmssAfter, last] at size
      exact withoutHeader_even.mp size
    · exact absurd understood (unknown_lost stored fits split known sndmss)
  · intro plain
    obtain ⟨size, inside, visits⟩ := tcpRecvOpts_plain stored fits plain.known plain.closed sndmss
    refine ⟨inside, visits, ?_, ?_⟩
    · intro pre kind data unknown short post split
      have known := plain.known (.other kind data unknown short) (by rw [split]; simp)
      cases known
    · rw [size]
      cases last : lastMss list.opts with
      | none => simp only [sndmssAfter, last]
      | some pair =>
          obtain ⟨hi, lo⟩ := pair
          simp only [sndmssAfter, last]
          exact withoutHeader_even.mpr (plain.even hi lo last)

section
variable {order : ByteOrder} {held : Int → Byte} {i a : Int} {srcpt dstpt seqnum acknum ctrl window rcvmss : Nat}

theorem putSeq_off {v : Nat} (off : i < a ∨ a + 4 ≤ i) : putSeq mem a v i = mem i :=
  Lib.store_off (by
    simp only [List.length_cons, List.length_nil]
    omega)

theorem putHeader_off (off : i < tcp ∨ tcp + 20 ≤ i) :
    putHeader order mem tcp srcpt dstpt seqnum acknum offset ctrl window i = mem i := by
  simp only [putHeader]
  rw [put16_off (by omega) (by omega), put16_off (by omega) (by omega), Lib.store_off (by simp; omega),
    putSeq_off (by omega), putSeq_off (by omega), put16_off (by omega) (by omega),
    put16_off (by omega) (by omega)]

theorem putHeader_offset :
    putHeader order mem tcp srcpt dstpt seqnum acknum offset ctrl window (tcp + 12) = BitVec.ofNat 8 offset := by
  simp only [putHeader]
  rw [put16_off (by omega) (by omega), put16_off (by omega) (by omega),
    Lib.store_within (by simp only [List.length_cons, List.length_nil]; omega) 0]
  simp

theorem putMss_octets (order : ByteOrder) (mem : Int → Byte) (data : Int) (rcvmss : Nat) :
    putMss order mem data rcvmss =
      (store (store mem data (Opt.mss (BitVec.ofNat 8 ((rcvmss + TCP_HDR_LEN) % 2 ^ 16 / 256))
        (BitVec.ofNat 8 ((rcvmss + TCP_HDR_LEN) % 2 ^ 16))).bytes) (data + 6) [0], data + 7) := by
  have option (v : Nat) : store (store mem data [BitVec.ofNat 8 2, BitVec.ofNat 8 4]) (data + 2) (net16 v) =
      store mem data (Opt.mss (BitVec.ofNat 8 (v / 256)) (BitVec.ofNat 8 v)).bytes :=
    Lib.store_append mem data [BitVec.ofNat 8 2, BitVec.ofNat 8 4] (net16 v)
  have nothing (mem : Int → Byte) (a : Int) : store mem a [] = mem := by
    funext i
    exact Lib.store_off (by simp)
  have place : data + 2 + (TCP_OPT_MSS_LEN : Nat) + ((TCP_OPT_MSS_LEN % 4 - 1 : Nat) : Int) = data + 6 := by
    rw [TCP_OPT_MSS_LEN]
    omega
  simp only [putMss, put16_net]
  rw [place, option]
  have none : List.replicate (TCP_OPT_MSS_LEN % 4 - 1) (1 : Byte) = [] := rfl
  rw [none, nothing, Int.add_assoc]
  rfl

theorem putMss_within (order : ByteOrder) (mem : Int → Byte) (data : Int) (rcvmss : Nat) :
    Holds (putMss order mem data rcvmss).1 data (Opt.mss (BitVec.ofNat 8 ((rcvmss + TCP_HDR_LEN) % 2 ^ 16 / 256))
      (BitVec.ofNat 8 ((rcvmss + TCP_HDR_LEN) % 2 ^ 16))).bytes := by
  rw [putMss_octets, Holds, Lib.load_store_apart (by simp [Opt.bytes])]
  exact Lib.load_store_same

theorem putMss_behind (order : ByteOrder) (mem : Int → Byte) (data : Int) (rcvmss : Nat) :
    (putMss order mem data rcvmss).1 (data + 4) = mem (data + 4) := by
  rw [putMss_octets]
  simp only
  rw [Lib.store_off (by simp), Lib.store_off (by simp [Opt.bytes])]

theorem netGetbuf_zero (low : -22 ≤ i) (high : i < 1600) : (netGetbuf held).mem i = 0 := by
  simp only [netGetbuf]
  rw [Lib.store_within (by simp; omega) 0]
  simp [List.getD, List.getElem?_replicate]
  split <;> rfl

end

theorem buildSegment_mss (order : ByteOrder) (sock : Socket) (t : Tcb)
    (ctrl seqnum acknum datastart datalen tcplen : Nat) (pkt : Packet) :
    let segment := buildSegment order sock t ctrl seqnum acknum datastart datalen 8 tcplen pkt
    segment.curr = pkt.curr - ((tcplen + 7) / 8 * 8 : Nat) ∧
      (segment.mem (segment.curr + 12)).toNat = 112 ∧
      Holds segment.mem (segment.curr + TCP_HDR_LEN)
        (Opt.mss (BitVec.ofNat 8 ((t.rcvmss + TCP_HDR_LEN) % 2 ^ 16 / 256))
          (BitVec.ofNat 8 ((t.rcvmss + TCP_HDR_LEN) % 2 ^ 16))).bytes ∧
      segment.mem (segment.curr + TCP_HDR_LEN + 4) = pkt.mem (segment.curr + TCP_HDR_LEN + 4) := by
  intro segment
  have place : segment.curr = pkt.curr - ((tcplen + 7) / 8 * 8 : Nat) := rfl
  generalize segment.curr = tcp at *
  have header : ((TCP_HDR_LEN : Nat) : Int) = 20 := rfl
  have kept : ∀ i, tcp + 20 ≤ i → i < tcp + 27 →
      segment.mem i = (putMss order pkt.mem (tcp + TCP_HDR_LEN) t.rcvmss).1 i := by
    intro i low high
    simp only [segment, buildSegment, ← place]
    rw [if_neg (by decide), put16_off (by omega) (by omega), putHeader_off (by omega), Lib.store_off]
    rw [putMss_octets]
    simp only [header]
    omega
  refine ⟨place, ?_, ?_, ?_⟩
  · simp only [segment, buildSegment, ← place]
    rw [put16_off (by omega) (by omega), putHeader_offset]
    rfl
  · refine holds_congr ?_ (putMss_within order pkt.mem (tcp + TCP_HDR_LEN) t.rcvmss)
    intro i low high
    simp only [Opt.bytes, List.length_cons, List.length_nil, header] at low high
    exact kept i low (by omega)
  · rw [kept _ (by omega) (by omega), putMss_behind]

theorem syn_sndmss {order : ByteOrder} {held : Int → Byte} {sock : Socket} {t : Tcb}
    {ctrl seqnum acknum datastart datalen : Nat} {pkt : Packet} (syn : ctrl &&& TCP_CTRL_SYN ≠ 0)
    (counted : 1 + (if ctrl &&& TCP_CTRL_FIN ≠ 0 then 1 else 0) ≤ datalen) (bounded : datalen ≤ TCP_OBLEN)
    (sent : tcpSendPkt order held sock t ctrl seqnum acknum datastart datalen = some pkt) (sndmss : Nat) :
    (tcpRecvOpts pkt.mem pkt.curr (pkt.mem (pkt.curr + 12)).toNat sndmss).1 =
      withoutHeader (littleEndian (BitVec.ofNat 8 ((t.rcvmss + TCP_HDR_LEN) % 2 ^ 16 / 256))
        (BitVec.ofNat 8 ((t.rcvmss + TCP_HDR_LEN) % 2 ^ 16))) := by
  have eight : (3 + TCP_OPT_MSS_SIZE) / 4 * 4 = 8 := rfl
  have clear (i : Int) : -22 ≤ i → i < 1600 → (netGetbuf held).mem i = 0 := netGetbuf_zero
  have start : (netGetbuf held).curr = 1598 := rfl
  simp only [tcpSendPkt, if_pos syn, eight] at sent
  generalize netGetbuf held = buffer at *
  generalize data : (if ctrl &&& TCP_CTRL_FIN ≠ 0 then ((datalen + 2 ^ 16 - 1) % 2 ^ 16 + 2 ^ 16 - 1) % 2 ^ 16
    else (datalen + 2 ^ 16 - 1) % 2 ^ 16) = left at sent
  have left_le : left ≤ 16384 := by
    rw [TCP_OBLEN] at bounded
    rw [← data]
    split_ifs at counted ⊢ <;> omega
  split at sent
  · cases sent
  · rename_i small
    have built := Option.some.inj sent
    have length : (TCP_HDR_LEN + left + 8) % 2 ^ 16 = left + 28 := by
      rw [TCP_HDR_LEN]
      omega
    rw [length] at built small
    rw [NET_MAX_PKTLEN] at small
    have segment := buildSegment_mss order sock t ctrl seqnum acknum datastart left (left + 28) buffer
    simp only [built] at segment
    obtain ⟨place, offset, octets, behind⟩ := segment
    have header : ((TCP_HDR_LEN : Nat) : Int) = 20 := rfl
    -- the end octet of the option list is one that `bzero` has left there
    have stop : pkt.mem (pkt.curr + TCP_HDR_LEN + 4) = 0 := by
      rw [behind]
      apply clear <;> omega
    let hi := BitVec.ofNat 8 ((t.rcvmss + TCP_HDR_LEN) % 2 ^ 16 / 256)
    let lo := BitVec.ofNat 8 ((t.rcvmss + TCP_HDR_LEN) % 2 ^ 16)
    let list : Options := ⟨[.mss hi lo], some (load pkt.mem (pkt.curr + TCP_HDR_LEN + 5) 3)⟩
    have stored : Holds pkt.mem (pkt.curr + TCP_HDR_LEN) list.bytes := by
      have bytes : list.bytes = (Opt.mss hi lo).bytes ++ 0 :: load pkt.mem (pkt.curr + TCP_HDR_LEN + 5) 3 := rfl
      rw [bytes, holds_append, holds_cons]
      refine ⟨octets, stop, ?_⟩
      rw [Holds, Lib.length_load]
      congr 1
      simp only [Opt.bytes, List.length_cons, List.length_nil]
      omega
    have fits : offset2octets 112 = TCP_HDR_LEN + list.bytes.length := by
      simp [list, Options.bytes, encode, Opt.bytes, Options.closing, offset2octets]
    rw [offset]
    exact (tcpRecvOpts_plain stored fits (by simp [list, Opt.known]) (fun _ => rfl) sndmss).1

theorem withoutHeader_arrives {rcvmss : Nat} (bound : rcvmss < 2 ^ 16) :
    withoutHeader (littleEndian (BitVec.ofNat 8 ((rcvmss + TCP_HDR_LEN) % 2 ^ 16 / 256))
        (BitVec.ofNat 8 ((rcvmss + TCP_HDR_LEN) % 2 ^ 16))) = rcvmss ↔
      (rcvmss + TCP_HDR_LEN) % 2 ^ 16 / 256 = (rcvmss + TCP_HDR_LEN) % 2 ^ 16 % 256 := by
  have size : (rcvmss + TCP_HDR_LEN) % 2 ^ 16 < 2 ^ 16 := Nat.mod_lt _ (by decide)
  have back : rcvmss = withoutHeader ((rcvmss + TCP_HDR_LEN) % 2 ^ 16) := by
    simp only [withoutHeader, TCP_HDR_LEN]
    omega
  generalize (rcvmss + TCP_HDR_LEN) % 2 ^ 16 = v at *
  have high : v / 256 < 256 := by omega
  have octets : bigEndian (BitVec.ofNat 8 (v / 256)) (BitVec.ofNat 8 v) = v := by
    simp only [bigEndian, BitVec.toNat_ofNat]
    omega
  have arrives := @withoutHeader_even (BitVec.ofNat 8 (v / 256)) (BitVec.ofNat 8 v)
  rw [octets, ← back] at arrives
  rw [arrives, BitVec.toNat_inj.symm, BitVec.toNat_ofNat, BitVec.toNat_ofNat]
  omega

/-- A header with options is understood just when they are plain, and the options of a SYN just when the
segment size reads the same in both directions. -/
theorem options_parsed (sndmss : Nat) :
    (∀ (offset : Nat) (list : Options), offset2octets offset = TCP_HDR_LEN + list.bytes.length →
      ∀ mem tcp, Holds mem (tcp + TCP_HDR_LEN) list.bytes →
        (Understood offset list mem tcp sndmss ↔ Plain list)) ∧
    (∀ (order : ByteOrder) (held : Int → Byte) (sock : Socket) (t : Tcb)
      (ctrl seqnum acknum datastart datalen : Nat) (pkt : Packet), ctrl &&& TCP_CTRL_SYN ≠ 0 →
      1 + (if ctrl &&& TCP_CTRL_FIN ≠ 0 then 1 else 0) ≤ datalen → datalen ≤ TCP_OBLEN → t.rcvmss < 2 ^ 16 →
      tcpSendPkt order held sock t ctrl seqnum acknum datastart datalen = some pkt →
      ((tcpRecvOpts pkt.mem pkt.curr (pkt.mem (pkt.curr + 12)).toNat sndmss).1 = t.rcvmss ↔
        (t.rcvmss + TCP_HDR_LEN) % 2 ^ 16 / 256 = (t.rcvmss + TCP_HDR_LEN) % 2 ^ 16 % 256)) := by
  constructor
  · intro offset list fits mem tcp stored
    exact understood_iff stored fits sndmss
  · intro order held sock t ctrl seqnum acknum datastart datalen pkt syn counted bounded bound sent
    rw [syn_sndmss syn counted bounded sent sndmss]
    exact withoutHeader_arrives bound

theorem syn_sent (order : ByteOrder) (held : Int → Byte) (sock : Socket) (t : Tcb) (seqnum : Nat) :
    ∃ pkt, tcpSendPkt order held sock t TCP_CTRL_SYN seqnum 0 0 1 = some pkt := by
  have small : ¬ NET_MAX_PKTLEN < (TCP_HDR_LEN + (1 + 2 ^ 16 - 1) % 2 ^ 16 + (3 + TCP_OPT_MSS_SIZE) / 4 * 4) % 2 ^ 16 := by
    decide
  have syn : TCP_CTRL_SYN &&& TCP_CTRL_SYN ≠ 0 := by decide
  have fin : ¬ TCP_CTRL_SYN &&& TCP_CTRL_FIN ≠ 0 := by decide
  simp only [tcpSendPkt, if_pos syn, if_neg fin, if_neg small]
  exact ⟨_, rfl⟩

def somewhere : Socket :=
  { isOpen := true, localpt := 1024, remotept := 80, localip := ⟨4, [192, 168, 0, 2], Netaddr.ipv4_fits⟩
    remoteip := ⟨4, [192, 168, 0, 1], Netaddr.ipv4_fits⟩ }

def evenOptions : Options := ⟨[.nop, .nop, .nop, .mss 5 5], some []⟩

theorem options_parsed_even :
    Understood 112 evenOptions (store (fun _ => 255) 20 evenOptions.bytes) 0 536 ∧
    ∃ pkt, tcpSendPkt .little (fun _ => 255) somewhere { Tcb.zero with rcvmss := 1265 } 2 1 0 0 1 = some pkt ∧
      (tcpRecvOpts pkt.mem pkt.curr (pkt.mem (pkt.curr + 12)).toNat 536).1 = 1265 := by
  constructor
  · refine ((options_parsed 536).1 112 evenOptions rfl _ 0 ?_).mpr ?_
    · exact Lib.load_store_same
    · refine ⟨by simp [evenOptions, Opt.known], fun _ => rfl, ?_⟩
      intro hi lo last
      cases last
      rfl
  · obtain ⟨pkt, sent⟩ := syn_sent .little (fun _ => 255) somewhere { Tcb.zero with rcvmss := 1265 } 1
    exact ⟨pkt, sent, ((options_parsed 536).2 .little _ somewhere _ 2 1 0 0 1 pkt (by decide) (by decide) (by decide)
      (by decide) sent).mpr (by decide)⟩

def usualOptions : Options := ⟨[.nop, .nop, .other 4 [] (by decide) (by decide), .mss 0x05 0xB4], none⟩

theorem options_misread :
    (offset2octets 112 = TCP_HDR_LEN + usualOptions.bytes.length ∧
      tcpRecvOpts (store (fun _ => 0) 20 usualOptions.bytes) 0 112 536 =
        (withoutHeader (4 + 256 * 5), [20, 21, 22, 23, 25, 26, 27, 28]) ∧
      ¬ Understood 112 usualOptions (store (fun _ => 0) 20 usualOptions.bytes) 0 536) ∧
    ∃ pkt, tcpSendPkt .little (fun _ => 0) somewhere { Tcb.zero with rcvmss := 1440 } 2 1 0 0 1 = some pkt ∧
      (tcpRecvOpts pkt.mem pkt.curr (pkt.mem (pkt.curr + 12)).toNat 536).1 = 46065 := by
  have walk : tcpRecvOpts (store (fun _ => 0) 20 usualOptions.bytes) 0 112 536 =
      (withoutHeader (4 + 256 * 5), [20, 21, 22, 23, 25, 26, 27, 28]) := by
    decide +kernel
  refine ⟨⟨rfl, walk, ?_⟩, ?_⟩
  · intro understood
    have inside := understood.inside 28
    rw [walk] at inside
    revert inside
    decide
  · obtain ⟨pkt, sent⟩ := syn_sent .little (fun _ => 0) somewhere { Tcb.zero with rcvmss := 1440 } 1
    refine ⟨pkt, sent, ?_⟩
    rw [syn_sndmss (by decide) (by decide) (by decide) sent 536]
    decide

end Xinu.Tcp
