import Mathlib.Algebra.Ring.Int.Defs
import Mathlib.Algebra.Ring.Nat
import Gem5Cxl.Core.Lts
import Gem5Cxl.L1Message.Packet

/-!
# Message buffers of Ruby (`mem/ruby/network/MessageBuffer.cc`)

Messages wait in a heap, ordered by their arrival time and then by the order in which they
were enqueued, and can be moved to a map of stalled messages and back. A sender asks with
`areNSlotsAvailable` before it enqueues. What it is told is the size as of the start of the
cycle plus the messages enqueued in the cycle: pops of the cycle do not show yet.

Here the heap is the list of its messages in order. The counters of the size are 32-bit
words (`u32`), as in the source; ticks and the message counter do not wrap. `random` is
what `random_time` returns. The consumer's events, the callback of `dequeue`, statistics,
`clear`, `delayHead` and the deferred messages are left out.
-/
namespace Gem5Cxl.L2.Ruby

open Core L1 List

/-- mirrors MessageBuffer.py:48-49 -/
inductive MessageRandomization
  | disabled | enabled | rubySystem
deriving DecidableEq, Repr

/-- The parameters, and the flags and the block size of the system. -/
structure Params where
  maxSize : Nat
  maxDequeueRate : Nat := 0
  strictFifo : Bool := false
  randomization : MessageRandomization := .rubySystem
  allowZeroLatency : Bool := false
  systemRandomization : Bool := false
  warmupEnabled : Bool := false
  blockSizeBits : Nat := 6
deriving DecidableEq, Repr

/-- mirrors mem/ruby/slicc_interface/Message.hh:125-128 -/
structure Message where
  time : Nat
  lastEnqueueTime : Nat
  delayedTicks : Nat := 0
  msgCounter : Nat := 0
deriving DecidableEq, Repr

/-- mirrors MessageBuffer.hh:205-276 -/
structure MessageBuffer where
  params : Params
  prioHeap : List Message := []
  stallMsgMap : List (Nat × List Message) := []
  stallMapSize : Int := 0
  dequeuesThisCy : Nat := 0
  timeLastTimeEnqueue : Nat := 0
  timeLastTimePop : Nat := 0
  lastArrivalTime : Nat := 0
  sizeAtCycleStart : Nat := 0
  stalledAtCycleStart : Nat := 0
  msgsThisCycle : Nat := 0
  msgCounter : Nat := 0
  lastMessageStrictFifoBypassed : Bool := false
deriving DecidableEq, Repr

def u32 (n : Int) : Nat := (n % 2 ^ 32).toNat

namespace Message

/-- mirrors mem/ruby/slicc_interface/Message.hh:98-103 -/
def updateDelayedTicks (m : Message) (curTime : Nat) : Except Fault Message :=
  if curTime < m.lastEnqueueTime then .error (.assertion .delayNonneg)
  else .ok { m with delayedTicks := m.delayedTicks + (curTime - m.lastEnqueueTime) }

/-- mirrors mem/ruby/slicc_interface/Message.hh:135-145 -/
def after (l r : Message) : Bool :=
  if l.lastEnqueueTime = r.lastEnqueueTime then r.msgCounter < l.msgCounter
  else r.lastEnqueueTime < l.lastEnqueueTime

end Message

/-- `push_heap`. -/
def push : List Message → Message → List Message
  | [], msg => [msg]
  | m :: heap, msg => if m.after msg then msg :: m :: heap else m :: push heap msg

/-- `m_stall_msg_map[addr].push_back(message)`. -/
def pushStalled (addr : Nat) (msg : Message) : List (Nat × List Message) → List (Nat × List Message)
  | [] => [(addr, [msg])]
  | (a, l) :: map =>
    if addr < a then (addr, [msg]) :: (a, l) :: map
    else if a = addr then (a, l ++ [msg]) :: map
    else (a, l) :: pushStalled addr msg map

namespace MessageBuffer

variable (b : MessageBuffer)

/-- mirrors MessageBuffer.cc:160-179 -/
def currentSizes (currentTime : Nat) : Nat × Nat :=
  if b.timeLastTimePop < currentTime then (u32 b.prioHeap.length, u32 b.stallMapSize)
  else if b.timeLastTimeEnqueue < currentTime then (b.sizeAtCycleStart, b.stalledAtCycleStart)
  else (u32 (b.sizeAtCycleStart + b.msgsThisCycle), b.stalledAtCycleStart)

/-- mirrors MessageBuffer.cc:147-192 -/
def areNSlotsAvailable (n currentTime : Nat) : Bool :=
  if b.params.maxSize = 0 then true
  else
    let (currentSize, currentStallSize) := b.currentSizes currentTime
    u32 (currentSize + currentStallSize + n) ≤ b.params.maxSize

/-- mirrors MessageBuffer.cc:516-530 -/
def isReady (currentTime : Nat) : Except Fault Bool :=
  if currentTime < b.timeLastTimePop then .error (.assertion .popNotLater)
  else
    let canDequeue : Bool := b.params.maxDequeueRate = 0 || b.timeLastTimePop < currentTime ||
      b.dequeuesThisCy < b.params.maxDequeueRate
    match b.prioHeap with
    | [] => .ok false
    | msg :: _ => .ok (canDequeue && msg.lastEnqueueTime ≤ currentTime)

def readyFront (currentTime : Nat) : Except Fault (Message × List Message) := do
  let ready ← b.isReady currentTime
  match ready, b.prioHeap with
  | true, msg :: heap => return (msg, heap)
  | _, _ => .error (.assertion .bufferReady)

/-- Whether delays are random. mirrors MessageBuffer.cc:238-240 -/
def randomized (p : Params) : Bool :=
  match p.randomization with
  | .disabled => false
  | .enabled => true
  | .rubySystem => p.systemRandomization

/-- The arrival time, and the last arrival time from which it was taken.
mirrors MessageBuffer.cc:234-253 -/
def arrival (currentTime delta random : Nat) : Nat × Nat :=
  if randomized b.params then
    if b.params.strictFifo then
      let lastArrivalTime := max b.lastArrivalTime currentTime
      (lastArrivalTime + random, lastArrivalTime)
    else (currentTime + random, b.lastArrivalTime)
  else (currentTime + delta, b.lastArrivalTime)

/-- mirrors MessageBuffer.cc:221-228 -/
def countEnqueue (currentTime : Nat) : MessageBuffer :=
  let b := if b.timeLastTimeEnqueue < currentTime then
      { b with msgsThisCycle := 0, timeLastTimeEnqueue := currentTime }
    else b
  { b with msgCounter := b.msgCounter + 1, msgsThisCycle := u32 (b.msgsThisCycle + 1) }

/-- mirrors MessageBuffer.cc:217-301 -/
def enqueue (b : MessageBuffer) (message : Message) (currentTime delta random : Nat)
    (bypassStrictFIFO : Bool) : Except Fault MessageBuffer :=
  let b := b.countEnqueue currentTime
  if delta = 0 ∧ b.params.allowZeroLatency = false then
    .error (.panic "Delta equals zero and allow_zero_latency is false during enqueue")
  else
    let (arrivalTime, lastArrivalTime) := b.arrival currentTime delta random
    if arrivalTime < currentTime then .error (.assertion .arrivalNotPast)
    else if b.params.strictFifo ∧ ¬(bypassStrictFIFO ∨ b.lastMessageStrictFifoBypassed) ∧
        arrivalTime < lastArrivalTime then .error (.panic "FIFO ordering violated")
    else if currentTime < message.lastEnqueueTime then .error (.assertion .notDequeuedEarly)
    else do
      let message ← message.updateDelayedTicks currentTime
      let prioHeap := push b.prioHeap
        { message with lastEnqueueTime := arrivalTime, msgCounter := b.msgCounter }
      if b.params.maxSize ≠ 0 ∧ (b.params.maxSize : Int) < prioHeap.length + b.stallMapSize then
        .error (.assertion .withinMaxSize)
      else return { b with
        prioHeap
        lastArrivalTime := if b.params.warmupEnabled then lastArrivalTime else arrivalTime
        lastMessageStrictFifoBypassed := bypassStrictFIFO }

/-- The sizes before the first pop of a cycle. mirrors MessageBuffer.cc:318-324 -/
def countPop (currentTime : Nat) : MessageBuffer :=
  let b := if b.timeLastTimePop < currentTime then
      { b with
        sizeAtCycleStart := u32 b.prioHeap.length
        stalledAtCycleStart := u32 b.stallMapSize
        timeLastTimePop := currentTime
        dequeuesThisCy := 0 }
    else b
  { b with dequeuesThisCy := u32 (b.dequeuesThisCy + 1) }

/-- The message, with its delay. mirrors MessageBuffer.cc:303-344 -/
def dequeue (currentTime : Nat) : Except Fault (Message × MessageBuffer) := do
  let (message, prioHeap) ← b.readyFront currentTime
  let message ← message.updateDelayedTicks currentTime
  return (message, { b.countPop currentTime with prioHeap })

/-- mirrors MessageBuffer.cc:371-385 -/
def recycle (currentTime recycleLatency : Nat) : Except Fault MessageBuffer := do
  let (node, heap) ← b.readyFront currentTime
  return { b with prioHeap := push heap { node with lastEnqueueTime := currentTime + recycleLatency } }

/-- mirrors MessageBuffer.cc:387-405 -/
def reanalyzeList (lt : List Message) (schdTick : Nat) : Except Fault MessageBuffer :=
  lt.foldlM (fun b m =>
    if schdTick < m.lastEnqueueTime then .error (.assertion .requeuedInTime)
    else .ok { b with prioHeap := push b.prioHeap m }) b

def reanalyzeEntry (currentTime : Nat) (b : MessageBuffer) (entry : Nat × List Message) :
    Except Fault MessageBuffer :=
  let stallMapSize := b.stallMapSize - entry.2.length
  if stallMapSize < 0 then .error (.assertion .stallMapSize)
  else { b with stallMapSize }.reanalyzeList entry.2 currentTime

/-- mirrors MessageBuffer.cc:407-423 -/
def reanalyzeMessages (addr currentTime : Nat) : Except Fault MessageBuffer :=
  match b.stallMsgMap.find? (fun entry => entry.1 = addr) with
  | none => .error (.assertion .hasStalled)
  | some entry => do
    let b ← b.reanalyzeEntry currentTime entry
    return { b with stallMsgMap := b.stallMsgMap.eraseP (fun entry => entry.1 = addr) }

/-- mirrors MessageBuffer.cc:425-443 -/
def reanalyzeAllMessages (currentTime : Nat) : Except Fault MessageBuffer := do
  let b ← b.stallMsgMap.foldlM (reanalyzeEntry currentTime) b
  return { b with stallMsgMap := [] }

/-- mirrors MessageBuffer.cc:445-465 -/
def stallMessage (addr currentTime : Nat) : Except Fault MessageBuffer := do
  let _ ← b.readyFront currentTime
  if addr % 2 ^ b.params.blockSizeBits ≠ 0 then .error (.assertion .lineAddress)
  else do
    let (message, b) ← b.dequeue currentTime
    return { b with
      stallMsgMap := pushStalled addr message b.stallMsgMap
      stallMapSize := b.stallMapSize + 1 }

end MessageBuffer

/-! ## What the calls do to the messages -/

theorem push_perm (heap : List Message) (msg : Message) : (push heap msg).Perm (msg :: heap) := by
  induction heap with
  | nil => exact .refl _
  | cons m heap ih =>
    unfold push
    split
    · exact .refl _
    · exact (ih.cons m).trans (.swap msg m heap)

theorem foldl_push_perm (lt heap : List Message) : (lt.foldl push heap).Perm (heap ++ lt) := by
  induction lt generalizing heap with
  | nil => simp
  | cons m lt ih => exact (ih _).trans (((push_perm heap m).append_right lt).trans perm_middle.symm)

theorem pushStalled_perm (addr : Nat) (msg : Message) (map : List (Nat × List Message)) :
    ((pushStalled addr msg map).flatMap Prod.snd).Perm (msg :: map.flatMap Prod.snd) := by
  induction map with
  | nil => simp [pushStalled]
  | cons entry map ih =>
    unfold pushStalled
    split
    · simp
    · split
      · simp only [flatMap_cons, append_assoc]
        exact perm_middle
      · exact (ih.append_left entry.2).trans perm_middle

variable {map : List (Nat × List Message)}

theorem find_stalled {addr : Nat} {entry : Nat × List Message}
    (h : map.find? (fun entry => entry.1 = addr) = some entry) :
    ∃ l₁ l₂, map = l₁ ++ entry :: l₂ ∧ map.eraseP (fun entry => entry.1 = addr) = l₁ ++ l₂ := by
  obtain ⟨haddr, l₁, l₂, hmap, hl₁⟩ := find?_eq_some_iff_append.1 h
  refine ⟨l₁, l₂, hmap, ?_⟩
  rw [hmap, eraseP_append_right _ (by simpa using hl₁)]
  simp [of_decide_eq_true haddr]

namespace MessageBuffer

variable {b b' : MessageBuffer} {t : Nat}

theorem reanalyzeList_iff {lt : List Message} : b.reanalyzeList lt t = .ok b' ↔
    (∀ m ∈ lt, m.lastEnqueueTime ≤ t) ∧ b' = { b with prioHeap := lt.foldl push b.prioHeap } := by
  induction lt generalizing b with
  | nil => simp [reanalyzeList, pure, Except.pure, eq_comm]
  | cons m lt ih =>
    unfold reanalyzeList at ih ⊢
    rw [foldlM_cons]
    by_cases hm : t < m.lastEnqueueTime
    · simp [hm, error_bind, not_le.2 hm]
    · rw [if_neg hm, ok_bind, ih]
      simp [not_lt.1 hm]

theorem reanalyzeEntries_iff (hb : 0 ≤ b.stallMapSize) :
    map.foldlM (reanalyzeEntry t) b = .ok b' ↔ (∀ m ∈ map.flatMap Prod.snd, m.lastEnqueueTime ≤ t) ∧
      ((map.flatMap Prod.snd).length : Int) ≤ b.stallMapSize ∧
      b' = { b with
        prioHeap := (map.flatMap Prod.snd).foldl push b.prioHeap
        stallMapSize := b.stallMapSize - (map.flatMap Prod.snd).length } := by
  induction map generalizing b with
  | nil => simp [pure, Except.pure, eq_comm, hb]
  | cons entry map ih =>
    rw [foldlM_cons, bind_eq_ok]
    unfold reanalyzeEntry at ih ⊢
    simp only [flatMap_cons, length_append, mem_append, or_imp, forall_and, foldl_append]
    by_cases hsize : b.stallMapSize - entry.2.length < 0
    · simp only [hsize, if_true, reduceCtorEq, false_and, exists_false, false_iff]
      rintro ⟨-, hle, -⟩
      omega
    · simp only [hsize, if_false, reanalyzeList_iff]
      constructor
      · rintro ⟨b₁, ⟨hin, rfl⟩, h⟩
        obtain ⟨hin', hle, rfl⟩ := (ih (by simp only; omega)).1 h
        simp only at hle ⊢
        refine ⟨⟨hin, hin'⟩, by omega, ?_⟩
        congr 1
        omega
      · rintro ⟨⟨hin, hin'⟩, hle, rfl⟩
        refine ⟨_, ⟨hin, rfl⟩, (ih (by simp only; omega)).2 ⟨hin', by simp only; omega, ?_⟩⟩
        simp only [mk.injEq, true_and, and_true]
        omega

theorem countPop_eq (b : MessageBuffer) (t : Nat) : ∃ x y z n, b.countPop t =
    { b with
      sizeAtCycleStart := x, stalledAtCycleStart := y
      timeLastTimePop := z, dequeuesThisCy := n } := by
  unfold countPop
  split <;> exact ⟨_, _, _, _, rfl⟩

theorem countEnqueue_eq (b : MessageBuffer) (t : Nat) : ∃ x y, b.countEnqueue t =
    { b with msgsThisCycle := x, timeLastTimeEnqueue := y, msgCounter := b.msgCounter + 1 } := by
  unfold countEnqueue
  split <;> exact ⟨_, _, rfl⟩

end MessageBuffer

end Gem5Cxl.L2.Ruby
