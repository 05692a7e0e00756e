import Xinu.System.Memory

/-!
# Regions of pages

The region allocator of `src/mem`. A pointer to a `memregion` is an index into `regtab`, and `none` is `SYSERR`. The
page table that `safeUnmapRange` changes is not there.
-/

namespace Xinu

abbrev PAGE_SIZE : Nat := 4096

def roundpage (x : Nat) : Nat := (4095 + x) % WORD / PAGE_SIZE * PAGE_SIZE
def truncpage (x : Nat) : Nat := x % WORD / PAGE_SIZE * PAGE_SIZE

def physical (x : Nat) : Nat := x % 2 ^ 29

abbrev MEMREGION_SIZE : Nat := 20

structure Memregion where
  prev : Option Nat
  next : Option Nat
  start : Nat
  length : Nat
  threadId : Nat

inductive RegionList
  | regfreelist | regalloclist
  deriving DecidableEq

open RegionList

structure Regions where
  regtab : Nat → Memregion
  head : RegionList → Option Nat

namespace Regions
variable (r : Regions) (i : Nat)

def prev : Option Nat := (r.regtab i).prev
def next : Option Nat := (r.regtab i).next
def start : Nat := (r.regtab i).start
def length : Nat := (r.regtab i).length
def threadId : Nat := (r.regtab i).threadId

def setPrev (p : Option Nat) : Regions := { r with regtab := Function.update r.regtab i { r.regtab i with prev := p } }
def setNext (p : Option Nat) : Regions := { r with regtab := Function.update r.regtab i { r.regtab i with next := p } }
def setLength (n : Nat) : Regions := { r with regtab := Function.update r.regtab i { r.regtab i with length := n } }
def setThreadId (tid : Nat) : Regions :=
  { r with regtab := Function.update r.regtab i { r.regtab i with threadId := tid } }
def setHead (list : RegionList) (p : Option Nat) : Regions := { r with head := Function.update r.head list p }

end Regions

def memRegionClear : Memregion := ⟨none, none, NULL, 0, 0⟩

/-- What `memRegionInit` sets up. `table` is what `memget` returns for the `maxRegions` entries of `regtab`. -/
structure RegionInit where
  heap : Heap
  table : Option Nat
  maxRegions : Nat
  regions : Regions

def regionsInit (memory : Nat → Memregion) (memoryStart memorySize maxRegions : Nat) : Regions where
  regtab i :=
    if i = 0 then ⟨none, none, memoryStart, memorySize, 0⟩
    else if i < maxRegions then memRegionClear
    else memory i
  head list :=
    match list with
    | regfreelist => some 0
    | regalloclist => none

def memRegionInit (heap : Heap) (memory : Nat → Memregion) (memoryStart memorySize : Nat) : Option RegionInit :=
  let memorySize := sub32 (truncpage (memoryStart + memorySize)) memoryStart
  let memoryStart := roundpage memoryStart
  let maxRegions := memorySize / PAGE_SIZE
  match heap.memget (maxRegions * MEMREGION_SIZE) with
  | none => none
  | some (heap, table) => some ⟨heap, table, maxRegions, regionsInit memory memoryStart memorySize maxRegions⟩

namespace Regions
variable (r : Regions)

def memRegionRemove (region : Nat) (list : RegionList) : Regions :=
  let r := match r.prev region with
    | some before => r.setNext before (r.next region)
    | none => r.setHead list (r.next region)
  let r := match r.next region with
    | some behind => r.setPrev behind (r.prev region)
    | none => r
  (r.setPrev region none).setNext region none

def absorb (a b : Nat) : Regions :=
  let r := (r.setLength a (add32 (r.length a) (r.length b))).setNext a (r.next b)
  match r.next b with
  | some behind => r.setPrev behind (some a)
  | none => r

def adjacent (a b : Nat) : Prop := add32 (r.start a) (r.length a) = r.start b

instance (a b : Nat) : Decidable (r.adjacent a b) := inferInstanceAs (Decidable (_ = _))

def coalesceNext (region : Nat) : Regions :=
  match r.next region with
  | some behind => if r.adjacent region behind then r.absorb region behind else r
  | none => r

def coalescePrev (region : Nat) : Regions :=
  match r.prev region with
  | some before => if r.adjacent before region then r.absorb before region else r
  | none => r

def memRegionCoalesce (region : Nat) : Regions := (r.coalesceNext region).coalescePrev region

def insertLoop (start : Nat) : Nat → Option Nat → Option Nat → Option (Option Nat × Option Nat)
  | 0, _, _ => none
  | _ + 1, previous, none => some (previous, none)
  | fuel + 1, previous, some current =>
      if r.start current < start then insertLoop start fuel (some current) (r.next current)
      else some (previous, some current)

def addAfter (region previous : Nat) : Regions :=
  ((r.setNext previous (some region)).setPrev region (some previous)).setNext region none

def addBefore (region current : Nat) (list : RegionList) : Regions :=
  let r := (r.setPrev region (r.prev current)).setNext region (some current)
  let r := match r.prev current with
    | some before => r.setNext before (some region)
    | none => r.setHead list (some region)
  r.setPrev current (some region)

/-- The list is not empty, and `previous` is set when there is no `current`. -/
def link (region : Nat) (list : RegionList) (previous current : Option Nat) : Regions :=
  match current, previous with
  | some current, _ => r.addBefore region current list
  | none, some previous => r.addAfter region previous
  | none, none => r

def memRegionInsert (region : Nat) (list : RegionList) : Option Regions :=
  if r.head list = none then some (r.setHead list (some region))
  else
    match r.insertLoop (r.start region) Heap.walkFuel none (r.head list) with
    | none => none
    | some (previous, current) =>
        let r := r.link region list previous current
        some (if r.head list = r.head regfreelist then r.memRegionCoalesce region else r)

def memRegionDiscover (address : Nat) : Nat :=
  sub32 (physical (truncpage address)) (physical (r.start 0)) / PAGE_SIZE

/-- The outer `none` is `NULL`. -/
def memRegionSplit (region length : Nat) : Regions × Option (Option Nat) :=
  let length := roundpage length
  if r.length region < length then (r, some none)
  else if r.length region = length then (r, none)
  else
    let remStart := add32 (r.start region) length
    let remainder := r.memRegionDiscover remStart
    let remainderRegion : Memregion := ⟨none, none, remStart, sub32 (r.length region) length, 0⟩
    let split : Regions := { r with regtab := Function.update r.regtab remainder remainderRegion }
    (split.setLength region length, some (some remainder))

def findLoop (nbytes : Nat) : Nat → Option Nat → Option (Option Nat)
  | 0, _ => none
  | _ + 1, none => some none
  | fuel + 1, some region =>
      if r.length region > nbytes then some (some region) else findLoop nbytes fuel (r.next region)

def giveBack (region nbytes : Nat) : Option Regions :=
  if r.length region > nbytes then
    match r.memRegionSplit region nbytes with
    | (r, none) => some r
    | (_, some none) => none
    | (r, some (some remainder)) => r.memRegionInsert remainder regfreelist
  else some r

def memRegionAlloc (tid nbytes : Nat) : Option (Regions × Option Nat) :=
  let nbytes := roundpage nbytes
  match r.findLoop nbytes Heap.walkFuel (r.head regfreelist) with
  | none => none
  | some none => some (r, none)
  | some (some region) =>
      ((r.memRegionRemove region regfreelist).giveBack region nbytes).bind fun r =>
        (r.memRegionInsert region regalloclist).map fun r => (r.setThreadId region tid, some region)

def reclaimLoop (tid : Nat) : Nat → Option Nat → Regions → Option Regions
  | 0, _, _ => none
  | _ + 1, none, r => some r
  | fuel + 1, some region, r =>
      let nextregion := r.next region
      if r.threadId region = tid then
        ((r.memRegionRemove region regalloclist).memRegionInsert region regfreelist).bind
          (reclaimLoop tid fuel nextregion)
      else reclaimLoop tid fuel nextregion r

def memRegionReclaim (tid : Nat) : Option Regions := reclaimLoop tid Heap.walkFuel (r.head regalloclist) r

def validLoop (start : Nat) : Nat → Option Nat → Option (Option Nat)
  | 0, _ => none
  | _ + 1, none => some none
  | fuel + 1, some region => if r.start region = start then some (some region) else validLoop start fuel (r.next region)

def memRegionValid (start : Nat) : Option (Option Nat) :=
  r.validLoop (truncpage start) Heap.walkFuel (r.head regalloclist)

def memRegionTransfer (start tid : Nat) : Option Regions :=
  match r.memRegionValid start with
  | none => none
  | some none => some r
  | some (some region) => some (r.setThreadId region tid)

end Regions

end Xinu
