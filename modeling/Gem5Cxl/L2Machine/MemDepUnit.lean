import Gem5Cxl.Core.Lts
import Gem5Cxl.L1Message.Packet

/-!
# The memory dependence unit (`cpu/o3/mem_dep_unit.cc`)

Memory instructions and barriers have an entry each, from their insertion until they complete
or are squashed. An entry counts what it waits for, `memDeps`, and has a list of the entries that
wait for it. An instruction that waits for nothing more and whose registers are ready is handed
to the instruction queue (`addReadyMemInst`).

* `insert`, `insertNonSpec`, `insertBarrier`: what a new instruction waits for is decided in
  `insert`, and only there.
* `regsReady`, `completeInst`, `squash`, `nonSpecInstReady`, `reschedule`, `replay`.

A pointer to an entry is the sequence number of its instruction, as no two instructions of a unit
have the same one; an entry can be pointed to when it is not in the hash any more. The dependence
predictor is not modelled: what it answers is a parameter of `insert`, as is `readyToIssue`.
`ready` has what was handed over, with the function that did it.
-/
namespace Gem5Cxl.L2.MemDep

open Core L1 Function

structure DynInst where
  seqNum : Nat
  threadNumber : Nat := 0
  isLoad : Bool := false
  isStore : Bool := false
  isAtomic : Bool := false
  isReadBarrier : Bool := false
  isWriteBarrier : Bool := false
  isHtmCmd : Bool := false
deriving DecidableEq, Repr

/-- mirrors mem_dep_unit.hh:182-218 -/
structure MemDepEntry where
  inst : DynInst
  dependInsts : List Nat := []
  regsReady : Bool := false
  memDeps : Nat := 0
  squashed : Bool := false
deriving DecidableEq, Repr

/-- The callers of `moveToReady`. -/
inductive Caller | insert | regsReady | wakeDependents | nonSpecInstReady | replay
deriving DecidableEq, Repr

structure MemDepUnit where
  /-- What a pointer to an entry points to. -/
  entries : Nat → MemDepEntry := fun sn => { inst := { seqNum := sn } }
  memDepHash : List Nat := []
  instList : Nat → List DynInst := fun _ => []
  instsToReplay : List DynInst := []
  loadBarrierSNs : List Nat := []
  storeBarrierSNs : List Nat := []
  ready : List (Caller × DynInst) := []

namespace MemDepUnit

variable (u : MemDepUnit)

def modify (p : Nat) (f : MemDepEntry → MemDepEntry) : MemDepUnit :=
  { u with entries := update u.entries p (f (u.entries p)) }

/-- mirrors mem_dep_unit.hh:253 -/
def hasLoadBarrier : Bool := !u.loadBarrierSNs.isEmpty

/-- mirrors mem_dep_unit.hh:256 -/
def hasStoreBarrier : Bool := !u.storeBarrierSNs.isEmpty

/-- mirrors mem_dep_unit.cc:601-610 -/
def moveToReady (caller : Caller) (p : Nat) : Except Fault MemDepUnit :=
  if (u.entries p).squashed then .error (.assertion .entryNotSquashed)
  else .ok { u with ready := u.ready ++ [(caller, (u.entries p).inst)] }

variable (inst : DynInst)

/-- mirrors mem_dep_unit.cc:591-599 -/
def findInHash : Except Fault Nat :=
  if inst.seqNum ∈ u.memDepHash then .ok inst.seqNum else .error (.assertion .foundInHash)

/-- mirrors mem_dep_unit.cc:157-165 -/
def insertBarrierSN : MemDepUnit :=
  let u := if inst.isReadBarrier || inst.isHtmCmd then
    { u with loadBarrierSNs := u.loadBarrierSNs.insert inst.seqNum } else u
  if inst.isWriteBarrier || inst.isHtmCmd then
    { u with storeBarrierSNs := u.storeBarrierSNs.insert inst.seqNum } else u

/-- A new entry, in the hash and in the list. mirrors mem_dep_unit.cc:194-205 and 327-339 -/
def newEntry : MemDepUnit :=
  { u with
    entries := update u.entries inst.seqNum { inst }
    memDepHash := u.memDepHash ++ [inst.seqNum]
    instList := update u.instList inst.threadNumber (u.instList inst.threadNumber ++ [inst]) }

/-- What the instruction is to wait for. mirrors mem_dep_unit.cc:209-226 -/
def producingStores (dep : Nat) : List Nat :=
  if (inst.isLoad || inst.isAtomic) && u.hasLoadBarrier then u.loadBarrierSNs
  else if (inst.isStore || inst.isAtomic) && u.hasStoreBarrier then u.storeBarrierSNs
  else if dep ≠ 0 then [dep] else []

/-- mirrors mem_dep_unit.cc:250-251 and 262-264 -/
def markReady (readyToIssue : Bool) (p : Nat) : MemDepUnit :=
  if readyToIssue then u.modify p fun e => { e with regsReady := true } else u

/-- mirrors mem_dep_unit.cc:271 -/
def addDependent (p : Nat) (store_entry : Nat) : MemDepUnit :=
  u.modify store_entry fun e => { e with dependInsts := e.dependInsts ++ [p] }

/-- The panic of `insert` and `insertNonSpec`. mirrors mem_dep_unit.cc:285-297 and 307-319 -/
def checkType : Except Fault Unit :=
  if inst.isStore || inst.isAtomic then .ok ()
  else if inst.isLoad then .ok ()
  else .error (.panic "Unknown type! (most likely a barrier).")

/-- The new entry waits for the entries found. mirrors mem_dep_unit.cc:244-280 -/
def link (readyToIssue : Bool) (p : Nat) (store_entries : List Nat) : Except Fault MemDepUnit :=
  if store_entries = [] then
    if (u.entries p).memDeps ≠ 0 then .error (.assertion .memDepsZero)
    else if readyToIssue then (u.markReady readyToIssue p).moveToReady .insert p
    else .ok u
  else
    let u := u.markReady readyToIssue p
    let u := store_entries.foldl (fun u store_entry => u.addDependent p store_entry) u
    .ok (u.modify p fun e => { e with memDeps := store_entries.length })

/-- mirrors mem_dep_unit.cc:189-298 -/
def insert (readyToIssue : Bool) (dep : Nat) : Except Fault MemDepUnit := do
  let u := u.newEntry inst
  let store_entries := (u.producingStores inst dep).filter (· ∈ u.memDepHash)
  let u ← u.link readyToIssue inst.seqNum store_entries
  let u := u.insertBarrierSN inst
  checkType inst
  return u

/-- mirrors mem_dep_unit.cc:322-342 -/
def insertBarrier : MemDepUnit := (u.newEntry inst).insertBarrierSN inst

/-- mirrors mem_dep_unit.cc:300-320 -/
def insertNonSpec : Except Fault MemDepUnit := do
  let u := u.insertBarrier inst
  checkType inst
  return u

/-- mirrors mem_dep_unit.cc:344-364 -/
def regsReady (inst : DynInst) : Except Fault MemDepUnit := do
  let p ← u.findInHash inst
  let u := u.modify p fun e => { e with regsReady := true }
  if (u.entries p).memDeps = 0 then u.moveToReady .regsReady p else return u

/-- mirrors mem_dep_unit.cc:366-376 -/
def nonSpecInstReady (inst : DynInst) : Except Fault MemDepUnit := do
  let p ← u.findInHash inst
  u.moveToReady .nonSpecInstReady p

/-- mirrors mem_dep_unit.cc:378-382 -/
def reschedule : MemDepUnit := { u with instsToReplay := u.instsToReplay ++ [inst] }

def replayOne : Except Fault MemDepUnit := do
  let p ← u.findInHash inst
  u.moveToReady .replay p

/-- mirrors mem_dep_unit.cc:384-402 -/
def replay : Except Fault MemDepUnit := do
  let u ← u.instsToReplay.foldlM replayOne u
  return { u with instsToReplay := [] }

/-- mirrors mem_dep_unit.cc:404-425 -/
def completed : Except Fault MemDepUnit :=
  if inst.seqNum ∈ u.memDepHash then
    .ok { u with
      instList := update u.instList inst.threadNumber ((u.instList inst.threadNumber).erase inst)
      memDepHash := u.memDepHash.erase inst.seqNum }
  else .error (.assertion .completedInHash)

/-- A dependent entry is woken. mirrors mem_dep_unit.cc:470-488 -/
def wake (p : Nat) : Except Fault MemDepUnit :=
  let woken_inst := u.entries p
  if woken_inst.memDeps = 0 then .error (.assertion .memDepsPositive)
  else
    let u := u.modify p fun e => { e with memDeps := e.memDeps - 1 }
    if woken_inst.memDeps - 1 = 0 ∧ woken_inst.regsReady = true ∧ woken_inst.squashed = false then
      u.moveToReady .wakeDependents p
    else .ok u

/-- mirrors mem_dep_unit.cc:458-492 -/
def wakeDependents : Except Fault MemDepUnit :=
  if !inst.isStore && !inst.isAtomic && !inst.isReadBarrier && !inst.isWriteBarrier && !inst.isHtmCmd then .ok u
  else do
    let p ← u.findInHash inst
    let u ← (u.entries p).dependInsts.foldlM wake u
    return u.modify p fun e => { e with dependInsts := [] }

/-- mirrors mem_dep_unit.cc:434-437 -/
def eraseStoreBarrier : Except Fault MemDepUnit :=
  if inst.isWriteBarrier || inst.isHtmCmd then
    if u.hasStoreBarrier then .ok { u with storeBarrierSNs := u.storeBarrierSNs.erase inst.seqNum }
    else .error (.assertion .hasStoreBarrier)
  else .ok u

/-- mirrors mem_dep_unit.cc:438-441 -/
def eraseLoadBarrier : Except Fault MemDepUnit :=
  if inst.isReadBarrier || inst.isHtmCmd then
    if u.hasLoadBarrier then .ok { u with loadBarrierSNs := u.loadBarrierSNs.erase inst.seqNum }
    else .error (.assertion .hasLoadBarrier)
  else .ok u

/-- mirrors mem_dep_unit.cc:427-441 -/
def completeInst : Except Fault MemDepUnit := do
  let u ← u.wakeDependents inst
  let u ← u.completed inst
  let u ← u.eraseStoreBarrier inst
  u.eraseLoadBarrier inst

/-- The youngest instruction of the thread is squashed. mirrors mem_dep_unit.cc:542-563 -/
def squashOne (tid : Nat) (inst : DynInst) : Except Fault MemDepUnit :=
  if inst.seqNum ∈ u.memDepHash then
    let u := u.modify inst.seqNum fun e => { e with squashed := true }
    .ok { u with
      loadBarrierSNs := u.loadBarrierSNs.erase inst.seqNum
      storeBarrierSNs := u.storeBarrierSNs.erase inst.seqNum
      memDepHash := u.memDepHash.erase inst.seqNum
      instList := update u.instList tid (u.instList tid).dropLast }
  else .error (.assertion .squashedInHash)

/-- mirrors mem_dep_unit.cc:520-568 -/
def squash (squashed_num tid : Nat) : Except Fault MemDepUnit :=
  let u := { u with
    instsToReplay := u.instsToReplay.filter fun i => !(i.threadNumber = tid && squashed_num < i.seqNum) }
  ((u.instList tid).reverse.takeWhile fun i => squashed_num < i.seqNum).foldlM (fun u inst => u.squashOne tid inst) u

end MemDepUnit

end Gem5Cxl.L2.MemDep
