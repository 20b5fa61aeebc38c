import Mathlib.Data.List.Basic

/-!
# The locks of a cache block (`mem/cache/cache_blk.hh`, `mem/cache/base.cc`)

A block lists the ranges that contexts have load-locked. Stores and store-conditionals go
through `checkWrite`, which clears the ranges of other contexts that they touch;
`satisfyRequest` answers swaps and atomic operations without it.
-/
namespace Gem5Cxl.L2.CacheBlk

/-- `Packet::req`, of at least one byte. -/
structure Request where
  contextId : Nat
  paddr : Nat
  size : Nat
  pos : 0 < size
deriving DecidableEq

structure Lock where
  contextId : Nat
  lowAddr : Nat
  highAddr : Nat

/-- mirrors cache_blk.hh:142-147 -/
def Lock.new (req : Request) : Lock := ⟨req.contextId, req.paddr, req.paddr + req.size - 1⟩

/-- mirrors cache_blk.hh:125-131 -/
def Lock.matches (l : Lock) (req : Request) : Bool :=
  l.contextId = req.contextId ∧ l.lowAddr ≤ req.paddr ∧ req.paddr + req.size - 1 ≤ l.highAddr

/-- mirrors cache_blk.hh:134-140 -/
def Lock.intersects (l : Lock) (req : Request) : Bool :=
  req.paddr ≤ l.highAddr ∧ l.lowAddr ≤ req.paddr + req.size - 1

variable (lockList : List Lock)

/-- mirrors cache_blk.hh:327-339 -/
def trackLoadLocked (req : Request) : List Lock :=
  .new req :: lockList.filter fun l => !l.intersects req

/-- mirrors cache_blk.hh:345-355 -/
def clearLoadLocks (req : Request) : List Lock :=
  lockList.filter fun l => !(l.intersects req && l.contextId ≠ req.contextId)

/-- mirrors cache_blk.hh:419-459 -/
def checkWrite (isLLSC : Bool) (req : Request) : Bool × List Lock :=
  if !isLLSC && lockList.isEmpty then (true, lockList)
  else if isLLSC then
    (lockList.any (·.matches req), clearLoadLocks (lockList.eraseP (·.matches req)) req)
  else (true, clearLoadLocks lockList req)

/-- `swap` are the swaps and atomic operations; a conditional swap may not write. -/
inductive Command | loadLocked | store | storeCond | swap (overwriteMem : Bool)
deriving DecidableEq

structure Access where
  cmd : Command
  req : Request

/-- Whether the block is written, and its locks; reads that lock nothing are left out.
mirrors base.cc:1129-1183 -/
def satisfyRequest (a : Access) : Bool × List Lock :=
  match a.cmd with
  | .swap overwriteMem => (overwriteMem, lockList)
  | .store => checkWrite lockList false a.req
  | .storeCond => checkWrite lockList true a.req
  | .loadLocked => (false, trackLoadLocked lockList a.req)

end Gem5Cxl.L2.CacheBlk
