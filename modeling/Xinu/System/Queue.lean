import Xinu.System.Config

/-!
# The thread queue table

`queue.c`, `getitem.c`, `insert.c`, `insertd.c` and `queinit.c`. The table is a function on `int`
indices, so a read or write outside `[0, NQENT)` touches a cell that no queue uses. The tests of
`isbadqid` and `isbadtid` that open these functions read the thread table and stand in `Kernel`.
-/

namespace Xinu

structure Queent where
  key : Int
  next : Int
  prev : Int

/-- What the kernel does with its queues. The kernel is written over this interface; `Quetab` is
the table of the source. -/
class Queues (Q : Type) where
  firstid : Q → Int → Int
  nextid : Q → Int → Int
  key : Q → Int → Int
  setKey : Q → Int → Int → Q
  enqueue : Q → Int → Int → Q
  getitem : Q → Int → Q
  clear : Q → Int → Q
  insert : Q → Int → Int → Int → Option Q
  insertd : Q → Int → Int → Int → Option Q
  queinit : Q → Int → Q

structure Quetab (c : Config) where
  ent : Int → Queent

namespace Quetab
variable {c : Config} (tab : Quetab c)

def setKey (i v : Int) : Quetab c := ⟨Function.update tab.ent i { tab.ent i with key := v }⟩
def setNext (i v : Int) : Quetab c := ⟨Function.update tab.ent i { tab.ent i with next := v }⟩
def setPrev (i v : Int) : Quetab c := ⟨Function.update tab.ent i { tab.ent i with prev := v }⟩

def enqueue (tid q : Int) : Quetab c :=
  let tail := quetail q
  let prev := (tab.ent tail).prev
  (((tab.setNext tid tail).setPrev tid prev).setNext prev tid).setPrev tail tid

def clear (tid : Int) : Quetab c := (tab.setPrev tid EMPTY).setNext tid EMPTY

def getitem (tid : Int) : Quetab c :=
  let next := (tab.ent tid).next
  let prev := (tab.ent tid).prev
  (((tab.setNext prev next).setPrev next prev).setNext tid EMPTY).setPrev tid EMPTY

/-- `while (quetab[next].key >= key) next = quetab[next].next;`. The tail holds the smallest `int`,
so a scan leaves the table only for that key, when its test holds of every `int` it could read. It
then never ends, as a scan over more entries than the table has never ends: both are `none`. -/
def insertScan (key : Int) : Nat → Int → Option Int
  | 0, _ => none
  | fuel + 1, next =>
      if next < 0 ∨ next ≥ c.nqent then none
      else if (tab.ent next).key ≥ key then insertScan key fuel (tab.ent next).next
      else some next

def insert (tid q key : Int) : Option (Quetab c) :=
  (tab.insertScan key c.nqent (tab.ent (quehead q)).next).map fun next =>
    let tab := tab.setNext tid next
    let prev := (tab.ent next).prev
    (((tab.setPrev tid prev).setKey tid key).setNext prev tid).setPrev next tid

/-- The loop of `insertd`: the last entry passed, the entry it stops at, and the key that is left. -/
def insertdScan (tail : Int) : Nat → Int → Int → Int → Option (Int × Int × Int)
  | 0, _, _, _ => none
  | fuel + 1, prev, next, key =>
      if (tab.ent next).key ≤ key ∧ next ≠ tail then
        insertdScan tail fuel next (tab.ent next).next (key - (tab.ent next).key)
      else some (prev, next, key)

def insertd (tid q key : Int) : Option (Quetab c) :=
  (tab.insertdScan (quetail q) c.nqent (quehead q) (tab.ent (quehead q)).next key).map
    fun (prev, next, key) =>
      let tab := ((((tab.setNext tid next).setPrev tid prev).setKey tid key).setNext prev tid).setPrev
        next tid
      if next ≠ quetail q then tab.setKey next ((tab.ent next).key - key) else tab

def queinit (q : Int) : Quetab c :=
  let tab := ((tab.setNext (quehead q) (quetail q)).setPrev (quehead q) EMPTY).setKey (quehead q) MAXKEY
  ((tab.setNext (quetail q) EMPTY).setPrev (quetail q) (quehead q)).setKey (quetail q) MINKEY

end Quetab

instance {c : Config} : Queues (Quetab c) where
  firstid tab q := (tab.ent (quehead q)).next
  nextid tab tid := (tab.ent tid).next
  key tab i := (tab.ent i).key
  setKey := Quetab.setKey
  enqueue := Quetab.enqueue
  getitem := Quetab.getitem
  clear := Quetab.clear
  insert := Quetab.insert
  insertd := Quetab.insertd
  queinit := Quetab.queinit

end Xinu
