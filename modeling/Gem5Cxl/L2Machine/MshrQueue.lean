import Gem5Cxl.L2Machine.Mshr
import Gem5Cxl.L2Machine.PacketQueue

/-!
# The queue of MSHRs (`mem/cache/mshr_queue.cc`, `mem/cache/queue.hh`)

The queue owns its entries. An entry is in `freeList` or in `allocatedList`, and
one that is allocated and not in service is in `readyList` too, which is kept in
the order of the entries' ready times: the cache sends the packet of the first.

* `addToReadyList`: insertion behind the entries that are not ready later.
* `delay`: a new ready time for an entry that stays in the list.
* `getNext`, `nextReadyTime`: what the cache asks.

An entry is in a list at most once, so that `readyIter` and `allocIter` are the
entry itself, and to use one whose entry is not in the list is a fault. Draining,
`moveToFront`, `forceDeallocateTarget` and the searches by address are left out.
-/
namespace Gem5Cxl.L2.Mshrs

open Core L1

/-- mirrors queue.hh:85-123 -/
structure MshrQueue where
  numEntries : Nat
  entries : Nat → Mshr
  allocatedList : List Nat
  readyList : List Nat
  freeList : List Nat
  numInService : Int
  allocated : Int

namespace MshrQueue

/-- mirrors queue.hh:133-143 -/
def new (numEntries : Nat) : MshrQueue where
  numEntries := numEntries
  entries := fun _ => {}
  allocatedList := []
  readyList := []
  freeList := List.range numEntries
  numInService := 0
  allocated := 0

variable (q : MshrQueue)

def readyTime (e : Nat) : Nat := (q.entries e).readyTime

def inService (e : Nat) : Bool := (q.entries e).inService

def set (e : Nat) (m : Mshr) : MshrQueue := { q with entries := Function.update q.entries e m }

/-- `list.erase(iter)`. -/
def erase (list : List Nat) (e : Nat) : Except Fault (List Nat) :=
  if e ∈ list then .ok (list.erase e) else .error .danglingIterator

/-- The loop of `addToReadyList`. mirrors queue.hh:111-116 -/
def insertReady (e : Nat) : List Nat → Except Fault (List Nat)
  | [] => .error (.panic "Failed to add to ready list.")
  | i :: is =>
    if q.readyTime i > q.readyTime e then .ok (e :: i :: is)
    else do
      let is ← insertReady e is
      .ok (i :: is)

/-- mirrors queue.hh:104-117 -/
def addToReadyList (e : Nat) : Except Fault (List Nat) :=
  match q.readyList.getLast? with
  | none => .ok (q.readyList ++ [e])
  | some back =>
    if q.readyTime back ≤ q.readyTime e then .ok (q.readyList ++ [e])
    else q.insertReady e q.readyList

/-- mirrors mshr_queue.cc:62-80 -/
def allocate (tick blkAddr blkSize : Nat) (pkt : MshrPacket) (whenReady order : Nat)
    (allocOnFill : Bool) : Except Fault MshrQueue :=
  match q.freeList with
  | [] => .error (.assertion .freeListNonempty)
  | e :: free =>
    if (q.entries e).getNumTargets ≠ 0 then .error (.assertion .noTargets)
    else do
      let m ← (q.entries e).allocate tick blkAddr blkSize pkt whenReady order allocOnFill
      let q := { q.set e m with freeList := free, allocatedList := q.allocatedList ++ [e] }
      let readyList ← q.addToReadyList e
      .ok { q with readyList, allocated := q.allocated + 1 }

/-- An entry that is deallocated leaves the count or the list it is in.
mirrors queue.hh:246-250 -/
def withdraw (e : Nat) : Except Fault MshrQueue :=
  if q.inService e then .ok { q with numInService := q.numInService - 1 }
  else do
    let readyList ← erase q.readyList e
    .ok { q with readyList }

/-- mirrors queue.hh:240-259 and mshr_queue.cc:82-90 -/
def deallocate (e : Nat) : Except Fault MshrQueue := do
  let allocatedList ← erase q.allocatedList e
  let q ← withdraw { q with
    allocatedList
    freeList := e :: q.freeList
    allocated := q.allocated - 1 } e
  let m ← (q.entries e).deallocate
  .ok (q.set e m)

/-- Move `e` to the place before `it`, where `none` is the end. A list does not change if an
element is moved before itself. -/
def splice (it : Option Nat) (list : List Nat) (e : Nat) : List Nat :=
  match it with
  | none => list.erase e ++ [e]
  | some i =>
    if i = e then list
    else (list.erase e).takeWhile (· ≠ i) ++ e :: (list.erase e).dropWhile (· ≠ i)

/-- The search starts at the entry itself. mirrors mshr_queue.cc:103-112 -/
def delay (tick e delayTicks : Nat) : Except Fault MshrQueue := do
  let m ← (q.entries e).delay tick delayTicks
  let q := q.set e m
  if e ∈ q.readyList then
    let it := (q.readyList.dropWhile (· ≠ e)).find? fun i => q.readyTime e ≥ q.readyTime i
    .ok { q with readyList := splice it q.readyList e }
  else .error .danglingIterator

/-- mirrors mshr_queue.cc:114-120 -/
def markInService (e : Nat) (pendingModifiedResp : Bool) : Except Fault MshrQueue := do
  let m ← (q.entries e).markInService pendingModifiedResp
  let readyList ← erase q.readyList e
  .ok { q.set e m with readyList, numInService := q.numInService + 1 }

/-- mirrors mshr_queue.cc:122-133 -/
def markPending (e : Nat) : Except Fault MshrQueue :=
  if q.inService e then do
    let q := q.set e { q.entries e with inService := false }
    let readyList ← q.addToReadyList e
    .ok { q with readyList, numInService := q.numInService - 1 }
  else .error (.assertion .inService)

def call (tick e : Nat) (c : Mshr.Call) : Except Fault MshrQueue := do
  let r ← (q.entries e).call tick c
  .ok (q.set e r.mshr)

/-- mirrors queue.hh:221-227 -/
def getNext (tick : Nat) : Option Nat :=
  match q.readyList with
  | [] => none
  | e :: _ => if q.readyTime e > tick then none else some e

/-- mirrors queue.hh:229-232 -/
def nextReadyTime : Nat :=
  match q.readyList with
  | [] => maxTick
  | e :: _ => q.readyTime e

end MshrQueue

end Gem5Cxl.L2.Mshrs
