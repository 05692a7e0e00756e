import Xinu.System.Bufpool
import Mathlib.Data.List.Nodup
import Mathlib.Data.List.Perm.Basic

namespace Xinu.Bufpool
open Lib (Byte)

def Chain (next : Nat → Nat) : Nat → List Nat → Prop
  | _, [] => True
  | b, c :: rest => c = b ∧ Chain next (next c) rest

theorem Chain.frame {next next' : Nat → Nat} {b : Nat} {free : List Nat} (chain : Chain next b free)
    (same : ∀ c ∈ free, next' c = next c) : Chain next' b free := by
  induction free generalizing b with
  | nil => trivial
  | cons c rest ih =>
      obtain ⟨first, chain⟩ := chain
      refine ⟨first, ?_⟩
      rw [same c List.mem_cons_self]
      exact ih chain fun d member => same d (List.mem_cons_of_mem _ member)

theorem chain_range (b n : Nat) : Chain (fun b => b + 1) b (List.range' b n) := by
  induction n generalizing b with
  | zero => trivial
  | succ n ih => exact ⟨rfl, ih (b + 1)⟩

/-- `due` free buffers are promised to a thread that runs or have still to be signalled. -/
structure Sound (p : Bufpool) (nbuf : Nat) (free used : List Nat) (due : Nat) : Prop where
  chain : Chain p.next p.head free
  perm : (free ++ used).Perm (List.range nbuf)
  self : ∀ b ∈ used, p.next b = b
  sem : p.freebuf.Valid
  units : p.freebuf.units + p.woken.length + due = free.length

theorem bfpalloc_sound (nbuf : Nat) (mem : Nat → Int → Byte) :
    Sound (bfpalloc nbuf mem) nbuf (List.range nbuf) [] 0 := by
  refine ⟨?_, ?_, nofun, ?_, ?_⟩
  · rw [List.range_eq_range']
    exact chain_range 0 nbuf
  · rw [List.append_nil]
  · show 0 = (-(nbuf : Int)).toNat
    omega
  · rw [List.length_range]
    rfl

namespace Sound
variable {p : Bufpool} {nbuf due : Nat} {free used used' : List Nat}

theorem nodup (sound : Sound p nbuf free used due) : (free ++ used).Nodup :=
  sound.perm.nodup_iff.mpr List.nodup_range

theorem length (sound : Sound p nbuf free used due) : free.length + used.length = nbuf := by
  rw [← List.length_append, sound.perm.length_eq, List.length_range]

theorem rearrange (sound : Sound p nbuf free used due) (same : used.Perm used') :
    Sound p nbuf free used' due :=
  ⟨sound.chain, (same.symm.append_left free).trans sound.perm, fun b member => sound.self b (same.mem_iff.mpr member),
    sound.sem, sound.units⟩

theorem pass (sound : Sound p nbuf free used due) {t : Nat} (passes : (p.freebuf.wait t).2 = false) :
    Sound { p with freebuf := (p.freebuf.wait t).1 } nbuf free used (due + 1) := by
  obtain ⟨-, taken⟩ := Lib.Sem.wait_passes passes
  have units := sound.units
  refine ⟨sound.chain, sound.perm, sound.self, Lib.Sem.wait_valid sound.sem, ?_⟩
  show (p.freebuf.wait t).1.units + p.woken.length + (due + 1) = free.length
  omega

theorem block (sound : Sound p nbuf free used due) {t : Nat} (blocks : (p.freebuf.wait t).2 = true) :
    Sound { p with freebuf := (p.freebuf.wait t).1 } nbuf free used due := by
  obtain ⟨-, none, short⟩ := Lib.Sem.wait_blocks blocks
  have units := sound.units
  refine ⟨sound.chain, sound.perm, sound.self, Lib.Sem.wait_valid sound.sem, ?_⟩
  show (p.freebuf.wait t).1.units + p.woken.length + due = free.length
  omega

theorem wake (sound : Sound p nbuf free used due) {t : Nat} (member : t ∈ p.woken) :
    Sound { p with woken := p.woken.erase t } nbuf free used (due + 1) := by
  have units := sound.units
  have positive := List.length_pos_of_mem member
  refine ⟨sound.chain, sound.perm, sound.self, sound.sem, ?_⟩
  show p.freebuf.units + (p.woken.erase t).length + (due + 1) = free.length
  rw [List.length_erase_of_mem member]
  omega

theorem memcpy (sound : Sound p nbuf free used due) (b : Nat) (buf : List Byte) :
    Sound (p.memcpy b buf) nbuf free used due :=
  ⟨sound.chain, sound.perm, sound.self, sound.sem, sound.units⟩

theorem unlink (sound : Sound p nbuf free used (due + 1)) :
    ∃ rest, free = p.head :: rest ∧ p.unlink.2 = p.head ∧ p.unlink.1.mem = p.mem ∧
      Sound p.unlink.1 nbuf rest (p.head :: used) due := by
  have units := sound.units
  have nodup := sound.nodup
  have perm := sound.perm
  have chain := sound.chain
  cases free with
  | nil =>
      rw [List.length_nil] at units
      omega
  | cons b rest =>
      obtain ⟨first, chain⟩ := chain
      subst first
      rw [List.cons_append, List.nodup_cons, List.mem_append, not_or] at nodup
      obtain ⟨⟨apart, outside⟩, -⟩ := nodup
      refine ⟨rest, rfl, rfl, rfl, ?_, List.perm_middle.trans perm, ?_, sound.sem, ?_⟩
      · refine chain.frame fun c member => Function.update_of_ne ?_ _ _
        intro same
        exact apart (same ▸ member)
      · intro c member
        rcases List.mem_cons.mp member with first | member
        · rw [first]
          exact Function.update_self ..
        · have other : c ≠ p.head := fun same => outside (same ▸ member)
          exact (Function.update_of_ne other _ _).trans (sound.self c member)
      · rw [List.length_cons] at units
        show p.freebuf.units + p.woken.length + due = rest.length
        omega

theorem link (sound : Sound p nbuf free used due) {b : Nat} (member : b ∈ used) :
    ∃ p', p.link b = some p' ∧ p'.mem = p.mem ∧ Sound p' nbuf (b :: free) (used.erase b) (due + 1) := by
  have nodup := sound.nodup
  have units := sound.units
  rw [List.nodup_append] at nodup
  obtain ⟨-, once, apart⟩ := nodup
  refine ⟨_, if_neg (not_not.mpr (sound.self b member)), rfl, ?_, ?_, ?_, sound.sem, ?_⟩
  · refine ⟨rfl, ?_⟩
    show Chain (Function.update p.next b p.head) (Function.update p.next b p.head b) free
    rw [Function.update_self]
    exact sound.chain.frame fun c inside => Function.update_of_ne (apart c inside b member) _ _
  · exact (List.perm_middle.symm.trans ((List.perm_cons_erase member).symm.append_left free)).trans sound.perm
  · intro c inside
    have other : c ≠ b := (once.mem_erase_iff.mp inside).1
    exact (Function.update_of_ne other _ _).trans (sound.self c (List.mem_of_mem_erase inside))
  · rw [List.length_cons]
    show p.freebuf.units + p.woken.length + (due + 1) = free.length + 1
    omega

theorem signal (sound : Sound p nbuf free used (due + 1)) : Sound p.signal nbuf free used due := by
  have units := sound.units
  refine ⟨sound.chain, sound.perm, sound.self, Lib.Sem.signal_valid sound.sem, ?_⟩
  show p.freebuf.signal.1.units + (p.woken ++ p.freebuf.signal.2.toList).length + due = free.length
  rcases Lib.Sem.signal_cases sound.sem with ⟨t, -, released, same⟩ | ⟨-, -, released, more⟩
  · rw [released, same, List.length_append, Option.toList_some, List.length_singleton]
    omega
  · rw [released, more, Option.toList_none, List.append_nil]
    omega

end Sound

end Xinu.Bufpool
