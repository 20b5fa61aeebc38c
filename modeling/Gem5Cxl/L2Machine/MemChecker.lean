import Mathlib.Algebra.Ring.Nat
import Gem5Cxl.Core.Lts
import Gem5Cxl.L1Message.Packet

/-!
# The memory checker (`mem/mem_checker.cc`)

The checker is told when reads and writes start and complete, and says of a completed
read whether its data can be explained. It knows transactions by their start and
completion ticks only.

* `WriteCluster`: writes that overlap, one after the other, in time.
* `ByteTracker`: the outstanding reads, the completed reads and the write clusters of
  one byte. `inExpectedData` is the check, `pruneTransactions` drops what no later
  check needs.
* `MemChecker`: one tracker for each byte, and the serial numbers.

`writes` is an unordered map; it is a list here, in the order of insertion. The check
runs through all of it unless it finds the data, so the order does not change its
answer. A tracker that does not exist is one that is new. Serial numbers count
transactions, and are natural numbers.
-/
namespace Gem5Cxl.L2.Checker

open Core L1

/-- mirrors mem_checker.hh:91 -/
def tickInitial : Nat := 0

/-- `MaxTick`. mirrors mem_checker.hh:96 and base/types.hh:60 -/
def tickFuture : Nat := 2 ^ 64 - 1

/-- mirrors mem_checker.hh:84 and 502 -/
def serialInitial : Nat := 0

/-- mirrors mem_checker.hh:101 -/
def dataInitial : BitVec 8 := 0

/-- mirrors mem_checker.hh:107-136 -/
structure Transaction where
  serial : Nat
  start : Nat
  complete : Nat
  data : BitVec 8 := dataInitial
deriving DecidableEq, Repr

/-! ## Write clusters -/

/-- mirrors mem_checker.hh:143-195 -/
structure WriteCluster where
  start : Nat := tickFuture
  complete : Nat := tickFuture
  writes : List Transaction := []
  completeMax : Nat := tickInitial
  numIncomplete : Nat := 0
deriving DecidableEq, Repr

namespace WriteCluster

variable (c : WriteCluster)

/-- mirrors mem_checker.hh:180 -/
def isComplete : Bool := c.complete ≠ tickFuture

/-- `writes.insert`: a serial that is there already keeps its transaction. -/
def insert (w : Transaction) : WriteCluster :=
  if c.writes.any (·.serial = w.serial) then c else { c with writes := c.writes ++ [w] }

/-- `--numIncomplete` on a `size_t`. -/
def decrement (n : Nat) : Nat := if n = 0 then 2 ^ 64 - 1 else n - 1

/-- mirrors mem_checker.cc:46-71 -/
def startWrite (serial start : Nat) (data : BitVec 8) :
    Except Fault WriteCluster :=
  let first := if c.start = tickFuture then start else c.start
  if c.isComplete then .error (.assertion .clusterIncomplete)
  else if start < first then .error (.assertion .clusterFilledInOrder)
  else if c.complete ≠ tickFuture ∧ c.complete ≤ start then
    .error (.assertion .clusterReopenedInTime)
  else
    let c := { c with
      start := first
      numIncomplete := c.numIncomplete + 1
      complete := tickFuture }
    .ok (c.insert ⟨serial, start, tickFuture, data⟩)

/-- The transaction of a serial with its completion recorded. -/
def setComplete (serial complete : Nat) (w : Transaction) : Transaction :=
  if w.serial = serial then { w with complete } else w

/-- A serial that is not found is only warned about. mirrors mem_checker.cc:73-103 -/
def completeWrite (serial complete : Nat) : Except Fault WriteCluster :=
  match c.writes.find? (·.serial = serial) with
  | none => .ok c
  | some w =>
    if w.complete ≠ tickFuture then .error (.assertion .writeOutstanding) else
      let completeMax := max c.completeMax complete
      let numIncomplete := decrement c.numIncomplete
      .ok { c with
        writes := c.writes.map (setComplete serial complete)
        completeMax, numIncomplete
        complete := if numIncomplete = 0 then completeMax else c.complete }

/-- mirrors mem_checker.cc:105-122 -/
def abortWrite (serial : Nat) : WriteCluster :=
  if c.writes.any (·.serial = serial) then
    let writes := c.writes.filter (·.serial ≠ serial)
    let numIncomplete := decrement c.numIncomplete
    { c with
      writes, numIncomplete
      complete := if numIncomplete = 0 ∧ writes ≠ [] then c.completeMax else c.complete }
  else c

end WriteCluster

/-! ## The tracker of a byte -/

/-- `outstandingReads` is ordered by serial. mirrors mem_checker.hh:205-373 -/
structure ByteTracker where
  outstandingReads : List Transaction
  readObservations : List Transaction
  writeClusters : List WriteCluster
  lastExpectedData : List (BitVec 8)
deriving DecidableEq, Repr

namespace ByteTracker

def initial : Transaction := ⟨serialInitial, tickInitial, tickInitial, dataInitial⟩

/-- mirrors mem_checker.hh:209-220 -/
def new : ByteTracker where
  outstandingReads := []
  readObservations := [initial]
  writeClusters := []
  lastExpectedData := []

/-- `outstandingReads.insert` -/
def insertRead (r : Transaction) : List Transaction → List Transaction
  | [] => [r]
  | r' :: rs =>
    if r.serial < r'.serial then r :: r' :: rs
    else if r.serial = r'.serial then r' :: rs
    else r' :: insertRead r rs

variable (t : ByteTracker)

/-- mirrors mem_checker.cc:124-129 -/
def startRead (serial start : Nat) : ByteTracker :=
  { t with outstandingReads := insertRead ⟨serial, start, tickFuture, dataInitial⟩ t.outstandingReads }

/-- The loop of `lastCompletedTransaction` down from index `i`, on completion ticks. -/
def scanBack (completes : List Nat) (before : Nat) : Nat → Nat
  | 0 => 0
  | i + 1 => if before ≤ completes.getD (i + 1) 0 then scanBack completes before i else i + 1

/-- The index of the last transaction complete before a tick, or 0. `completes` are the
completion ticks of a list of transactions or of clusters. mirrors mem_checker.hh:324-336 -/
def lastCompletedTransaction (completes : List Nat) (before : Nat) : Except Fault Nat :=
  if completes = [] then .error (.assertion .transactionsNonempty)
  else .ok (scanBack completes before (completes.length - 1))

/-- What the check has found out so far; `found` once it has ended with a match. -/
structure Scan where
  lastExpectedData : List (BitVec 8)
  wcOverlap : Bool
  lastObsValid : Bool
  found : Bool := false
deriving DecidableEq, Repr

/-- The loop over the writes of a cluster. mirrors mem_checker.cc:149-186 -/
def scanWrites (lastObs : Transaction) (start : Nat) (data : BitVec 8) :
    List Transaction → Scan → Scan
  | [], s => s
  | w :: ws, s =>
    if w.complete < lastObs.start then scanWrites lastObs start data ws s
    else if w.data = data then { s with found := true }
    else
      let s := { s with lastExpectedData := s.lastExpectedData ++ [w.data] }
      if start < w.complete then scanWrites lastObs start data ws s
      else
        let s := { s with wcOverlap := false }
        let s := if lastObs.complete < w.start then { s with lastObsValid := false } else s
        scanWrites lastObs start data ws s

/-- The loop over the clusters, the last one first. mirrors mem_checker.cc:145-187 -/
def scanClusters (lastObs : Transaction) (start : Nat) (data : BitVec 8) :
    List WriteCluster → Scan → Scan
  | [], s => s
  | c :: cs, s =>
    if s.wcOverlap then
      let s := scanWrites lastObs start data c.writes s
      if s.found then s else scanClusters lastObs start data cs s
    else s

/-- Whether the read overlaps all clusters, as the check takes for granted.
mirrors mem_checker.cc:208-209 -/
def overlapsAll (clusters : List WriteCluster) (start complete : Nat) : Bool :=
  match clusters.head?, clusters.getLast? with
  | some first, some last => first.start < complete ∧ start < last.complete
  | _, _ => true

/-- The end of the check. mirrors mem_checker.cc:189-222 -/
def checkOthers (lastObs : Transaction) (start complete : Nat) (data : BitVec 8)
    (s : Scan) : Except Fault (Bool × List (BitVec 8)) :=
  let expected := s.lastExpectedData
  if s.found then .ok (true, expected)
  else if s.lastObsValid then
    if start < lastObs.complete then .error (.assertion .observationBeforeStart)
    else if lastObs.data = data then .ok (true, expected)
    else .ok (false, expected ++ [lastObs.data])
  else if t.writeClusters ≠ [] ∧ s.wcOverlap = true then
    if overlapsAll t.writeClusters start complete then .ok (true, expected)
    else .error (.assertion .clustersOverlapRead)
  else if expected = [] then
    if lastObs.complete ≠ tickInitial then .error (.assertion .noObservation)
    else .ok (true, expected)
  else .ok (false, expected)

/-- mirrors mem_checker.cc:131-223 -/
def inExpectedData (start complete : Nat) (data : BitVec 8) :
    Except Fault (Bool × ByteTracker) := do
  let i ← lastCompletedTransaction (t.readObservations.map (·.complete)) start
  let lastObs := t.readObservations.getD i initial
  let s := scanClusters lastObs start data t.writeClusters.reverse
    { lastExpectedData := [], wcOverlap := true, lastObsValid := lastObs.complete ≠ tickInitial }
  let (result, expected) ← t.checkOthers lastObs start complete data s
  return (result, { t with lastExpectedData := expected })

/-- The tick before which completed transactions are not needed any more.
mirrors mem_checker.cc:287-288 -/
def pruneBefore (curTick : Nat) : Nat :=
  match t.outstandingReads with
  | [] => curTick
  | r :: _ => r.start

def pruneClusters (before : Nat) : Except Fault ByteTracker :=
  if t.writeClusters = [] then .ok t
  else do
    let j ← lastCompletedTransaction (t.writeClusters.map (·.complete)) before
    return { t with writeClusters := t.writeClusters.drop j }

/-- mirrors mem_checker.cc:281-299 -/
def pruneTransactions (curTick : Nat) : Except Fault ByteTracker := do
  let before := t.pruneBefore curTick
  let i ← lastCompletedTransaction (t.readObservations.map (·.complete)) before
  { t with readObservations := t.readObservations.drop i }.pruneClusters before

/-- A serial that is not found is only warned about. mirrors mem_checker.cc:225-248 -/
def completeRead (curTick serial complete : Nat) (data : BitVec 8) :
    Except Fault (Bool × ByteTracker) :=
  match t.outstandingReads.find? (·.serial = serial) with
  | none => .ok (true, t)
  | some r => do
    let t := { t with outstandingReads := t.outstandingReads.filter (·.serial ≠ serial) }
    let (result, t) ← t.inExpectedData r.start complete data
    let t := { t with readObservations := t.readObservations ++ [(⟨serial, r.start, complete, data⟩ : Transaction)] }
    let t ← t.pruneTransactions curTick
    return (result, t)

/-- Change the cluster `getIncompleteWriteCluster` returns: the last one, or a new one after
it if that one is complete. mirrors mem_checker.cc:250-258 -/
def onIncompleteWriteCluster (f : WriteCluster → Except Fault WriteCluster) :
    List WriteCluster → Except Fault (List WriteCluster)
  | [] => do return [← f {}]
  | [c] => if c.isComplete then do return [c, ← f {}] else do return [← f c]
  | c :: c' :: cs => do return c :: (← onIncompleteWriteCluster f (c' :: cs))

/-- mirrors mem_checker.cc:260-265 -/
def startWrite (t : ByteTracker) (serial start : Nat) (data : BitVec 8) :
    Except Fault ByteTracker := do
  let clusters ← onIncompleteWriteCluster (·.startWrite serial start data) t.writeClusters
  return { t with writeClusters := clusters }

/-- mirrors mem_checker.cc:267-273 -/
def completeWrite (t : ByteTracker) (curTick serial complete : Nat) : Except Fault ByteTracker := do
  let clusters ← onIncompleteWriteCluster (·.completeWrite serial complete) t.writeClusters
  { t with writeClusters := clusters }.pruneTransactions curTick

/-- mirrors mem_checker.cc:275-279 -/
def abortWrite (t : ByteTracker) (serial : Nat) : Except Fault ByteTracker := do
  let clusters ← onIncompleteWriteCluster (fun c => .ok (c.abortWrite serial)) t.writeClusters
  return { t with writeClusters := clusters }

end ByteTracker

/-! ## The checker -/

/-- mirrors mem_checker.hh:492-515 -/
structure MemChecker where
  errorMessage : String
  nextSerial : Nat
  byteTrackers : Nat → ByteTracker

/-- `%#x` -/
def hex (n : Nat) : String :=
  if n = 0 then "0" else "0x" ++ String.ofList (Nat.toDigits 16 n)

namespace MemChecker

/-- mirrors mem_checker.hh:377-380 -/
def new : MemChecker where
  errorMessage := ""
  nextSerial := serialInitial
  byteTrackers _ := .new

def setTracker (c : MemChecker) (addr : Nat) (t : ByteTracker) : MemChecker :=
  { c with byteTrackers := Function.update c.byteTrackers addr t }

/-- The loop `for (size_t i = 0; i < size; ++i)`: `left` rounds from index `i`. -/
def forBytes {σ : Type} (body : Nat → σ → Except Fault σ) : Nat → Nat → σ → Except Fault σ
  | 0, _, s => .ok s
  | left + 1, i, s => do
    let s ← body i s
    forBytes body left (i + 1) s

def forTrackers (c : MemChecker) (addr size : Nat)
    (f : Nat → ByteTracker → Except Fault ByteTracker) :
    Except Fault MemChecker :=
  forBytes (fun i c => do return c.setTracker (addr + i) (← f i (c.byteTrackers (addr + i)))) size 0 c

/-- mirrors mem_checker.hh:518-530 -/
def startRead (c : MemChecker) (start addr size : Nat) : Except Fault (Nat × MemChecker) := do
  let serial := c.nextSerial
  let c ← c.forTrackers addr size fun _ t => .ok (t.startRead serial start)
  return (serial, { c with nextSerial := c.nextSerial + 1 })

/-- mirrors mem_checker.hh:532-544 -/
def startWrite (c : MemChecker) (start addr size : Nat) (data : Nat → BitVec 8) :
    Except Fault (Nat × MemChecker) := do
  let serial := c.nextSerial
  let c ← c.forTrackers addr size fun i t => t.startWrite serial start (data i)
  return (serial, { c with nextSerial := c.nextSerial + 1 })

/-- mirrors mem_checker.hh:546-557 -/
def completeWrite (c : MemChecker) (curTick serial complete addr size : Nat) :
    Except Fault MemChecker :=
  c.forTrackers addr size fun _ t => t.completeWrite curTick serial complete

/-- mirrors mem_checker.hh:559-569 -/
def abortWrite (c : MemChecker) (serial addr size : Nat) : Except Fault MemChecker :=
  c.forTrackers addr size fun _ t => t.abortWrite serial

/-- The line of the error message for one byte. mirrors mem_checker.cc:324-334 -/
def failureText (addr : Nat) (data : BitVec 8) (expected : List (BitVec 8)) : String :=
  "  Read transaction for address " ++ hex addr ++ " failed: received " ++ hex data.toNat ++
    ", expected " ++ "|".intercalate (expected.map fun d => hex d.toNat)

/-- One round of the loop; the second component is `result`. mirrors mem_checker.cc:311-336 -/
def completeReadByte (curTick serial complete addr : Nat) (data : Nat → BitVec 8) (i : Nat)
    (s : MemChecker × Bool) : Except Fault (MemChecker × Bool) := do
  let (ok, t) ← (s.1.byteTrackers (addr + i)).completeRead curTick serial complete (data i)
  let c := s.1.setTracker (addr + i) t
  let text := failureText (addr + i) (data i) t.lastExpectedData
  return if ok then (c, s.2)
    else ({ c with errorMessage := (if s.2 then "" else c.errorMessage ++ "\n") ++ text }, false)

/-- mirrors mem_checker.cc:301-344 -/
def completeRead (c : MemChecker) (curTick serial complete addr size : Nat)
    (data : Nat → BitVec 8) :
    Except Fault (Bool × MemChecker) := do
  let (c, result) ← forBytes (completeReadByte curTick serial complete addr data) size 0 (c, true)
  return (result, c)

end MemChecker

end Gem5Cxl.L2.Checker
