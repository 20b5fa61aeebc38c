import Gem5Cxl.Core.Lts
import Gem5Cxl.L2Machine.ChunkGenerator

/-!
# Ports that send a region in chunks

`DmaPort` (`dev/dma_device.cc`) and `CXLProcPort`
(`dev/cxl/TestDev/CXLProcessor.cc`) share a design and most of their text. A
request becomes a request state, queued on `transmitList`; the port sends the
chunks of the front state one packet at a time, one in a cycle, and counts the
packets it still waits for in `pendingCount`. A refused packet is kept in
`inRetry`. A response finds its request state through the packet, adds to its
byte count, and the last one signals the completion event and deletes it.

* `ChunkPort`: the fields the two classes share. Request states are objects
  on the heap: `states` maps their identities to what they hold, and a deleted
  one is `none`, so that a packet that outlives its state is a fault.
* `trySendTimingReq`, `handleResp`, `drain`: the functions whose text is the
  same in both classes.

Whether the peer takes a packet is an argument (`accept`). What a port does
outside itself, scheduling the events of its requests and reporting the end of
a drain, is the list `signals`. An event that a caller hands to two requests at
once is the caller's affair; the events' own state is left out, and so are the
data buffers, the stream ids and the request flags, which are only copied into
the packet. `sendEvent` is the fact that it is scheduled.
-/
namespace Gem5Cxl.L2

open Core L1 Function

/-- `DmaReqState`, `CXLProcReqState`. mirrors dma_device.hh:82-134 and
dev/cxl/TestDev/CXLProcessor.hh:61-83 -/
structure ReqState where
  cmd : MemCmd
  totBytes : Nat
  numBytes : Nat := 0
  gen : ChunkGenerator
  aborted : Bool := false
  completionEvent : Option Nat := none
  abortEvent : Option Nat := none
  delay : Nat := 0
  isCxl : Bool := false
deriving DecidableEq, Repr

/-- A packet for one chunk: its request state, its command and its request's
address and size. -/
structure ChunkPacket where
  senderState : Nat
  cmd : MemCmd
  chunk : Chunk
deriving DecidableEq, Repr

/-- What a port does outside itself. The events carry the request state that
signals them. -/
inductive Signal
  | completion (state event delay : Nat)
  | abort (state event : Nat)
  | drainDone
deriving DecidableEq, Repr

structure ChunkPort where
  transmitList : List Nat := []
  states : Nat → Option ReqState := fun _ => none
  inRetry : Option ChunkPacket := none
  retryPending : Bool := false
  sendEvent : Bool := false
  pendingCount : Nat := 0
  signals : List Signal := []

/-- The two answers of a drain request. mirrors sim/drain.hh:71-76 -/
inductive DrainState | draining | drained
deriving DecidableEq, Repr

/-- mirrors dma_device.cc:136-152 and dev/cxl/TestDev/CXLProcessor.cc:57-76 -/
def ReqState.createPacket (st : ReqState) (i : Nat) : ChunkPacket :=
  ⟨i, st.cmd, ⟨st.gen.addr, st.gen.size⟩⟩

namespace ChunkPort

variable (p : ChunkPort)

/-- `state->`: the request state behind a pointer. -/
def lookup (i : Nat) : Except Fault ReqState :=
  match p.states i with
  | some st => .ok st
  | none => .error .danglingPointer

/-- `transmitList.front()`. -/
def front : Except Fault Nat :=
  match p.transmitList with
  | i :: _ => .ok i
  | [] => .error .endIterator

def setState (i : Nat) (st : ReqState) : ChunkPort :=
  { p with states := update p.states i (some st) }

/-- `delete state`. -/
def delete (i : Nat) : ChunkPort :=
  { p with states := update p.states i none }

def signal (e : Signal) : ChunkPort := { p with signals := p.signals ++ [e] }

/-- `transmitList.push_back(new …ReqState(…))` for the identity `i`. -/
def push (i : Nat) (st : ReqState) : ChunkPort :=
  { p.setState i st with transmitList := p.transmitList ++ [i] }

/-- `device->schedule(sendEvent, …)`; an event is scheduled once at a time. -/
def scheduleSend : Except Fault ChunkPort :=
  if p.sendEvent then .error (.assertion .eventNotScheduled) else .ok { p with sendEvent := true }

/-- The packet that is offered next: the one a peer refused, or a new one for
the front request. mirrors dma_device.cc:286-288 -/
def nextPacket : Except Fault ChunkPacket := do
  let i ← p.front
  let st ← p.lookup i
  .ok (p.inRetry.getD (st.createPacket i))

/-- `pendingCount++`. -/
def counted : ChunkPort := { p with pendingCount := (p.pendingCount + 1) % 2 ^ 32 }

/-- The count of a packet taken, or the note that the peer owes a retry.
mirrors dma_device.cc:289, 297-302 -/
def offered (pkt : ChunkPacket) (accept : Bool) : ChunkPort :=
  if accept then { p with inRetry := none }.counted
  else { p with inRetry := some pkt, retryPending := true }

/-- mirrors dma_device.cc:304-307 -/
def advance (i : Nat) (st : ReqState) : ChunkPort :=
  let p := p.setState i { st with gen := st.gen.next.2 }
  if st.gen.last then { p with transmitList := p.transmitList.tail } else p

/-- mirrors dma_device.cc:303-318 -/
def afterSend (i : Nat) (st : ReqState) : Except Fault ChunkPort :=
  if p.retryPending then .ok p
  else if (p.advance i st).transmitList = [] then .ok (p.advance i st)
  else (p.advance i st).scheduleSend

/-- The port after the call, and the packet it offered. mirrors
dma_device.cc:281-322 and dev/cxl/TestDev/CXLProcessor.cc:191-238 -/
def trySendTimingReq (accept : Bool) : Except Fault (ChunkPort × ChunkPacket) := do
  let i ← p.front
  let st ← p.lookup i
  let pkt ← p.nextPacket
  let p' ← (p.offered pkt accept).afterSend i st
  .ok (p', pkt)

/-- The timing branch of `sendDma` and `sendPacket`, which differ in the function that sends:
the port, and the packet it offered if it offered one. mirrors dma_device.cc:489-500 and
dev/cxl/TestDev/CXLProcessor.cc:94-104 -/
def sendWith (send : ChunkPort → Bool → Except Fault (ChunkPort × ChunkPacket)) (p : ChunkPort)
    (accept : Bool) : Except Fault (ChunkPort × Option ChunkPacket) :=
  if p.transmitList = [] then .error (.assertion .transmitListNonempty)
  else if p.retryPending || p.sendEvent then .ok (p, none)
  else do
    let (p', pkt) ← send p accept
    .ok (p', some pkt)

/-! ## Responses -/

/-- Schedule the event, if there is one, and `delete state`. -/
def release (i : Nat) (event : Option Signal) : ChunkPort :=
  match event with
  | some e => (p.signal e).delete i
  | none => p.delete i

/-- Whether a response ends its request state, and how. mirrors dma_device.cc:108-129 -/
def finish (i : Nat) (st : ReqState) (delay : Nat) : ChunkPort :=
  if st.aborted then
    if st.totBytes = st.numBytes ∨ p.pendingCount = 0 then
      p.release i (st.abortEvent.map (.abort i))
    else p
  else if st.totBytes = st.numBytes then
    p.release i (st.completionEvent.map (.completion i · (delay + st.delay)))
  else p

/-- mirrors dma_device.cc:131-133 -/
def signalIfDrained : ChunkPort :=
  if p.pendingCount = 0 then p.signal .drainDone else p

/-- mirrors dma_device.cc:91-134 and dev/cxl/TestDev/CXLProcessor.cc:159-188 -/
def handleResp (i size delay : Nat) : Except Fault ChunkPort := do
  if p.pendingCount = 0 then .error (.assertion .pendingNonzero) else
    let st ← p.lookup i
    let st := { st with numBytes := add64 st.numBytes size }
    if st.totBytes < st.numBytes then .error (.assertion .totBytesCover) else
      let p := { p with pendingCount := p.pendingCount - 1 }
      .ok ((p.setState i st).finish i st delay).signalIfDrained

/-- mirrors dma_device.cc:187-196 and dev/cxl/TestDev/CXLProcessor.cc:255-264 -/
def drain : DrainState := if p.pendingCount = 0 then .drained else .draining

/-! ## What a send does -/

section Send

variable {p : ChunkPort} {i : Nat} {l : List Nat} {st : ReqState} {pkt : ChunkPacket}

section

variable (hl : p.transmitList = i :: l) (hs : p.states i = some st)
  (hr : ∀ r, p.inRetry = some r → r = st.createPacket i)
include hl hs hr

theorem nextPacket_eq : p.nextPacket = .ok (st.createPacket i) := by
  simp only [nextPacket, front, hl, ok_bind, lookup, hs]
  cases h : p.inRetry with
  | none => rfl
  | some r => rw [hr r h]; rfl

theorem trySendTimingReq_refused :
    p.trySendTimingReq false =
      .ok ({ p with inRetry := some (st.createPacket i), retryPending := true },
        st.createPacket i) := by
  simp only [trySendTimingReq, nextPacket_eq hl hs hr, front, hl, ok_bind, lookup, hs, offered,
    afterSend, Bool.false_eq_true, if_false, if_true]

end

/-- What is left of the transmit list when the front request has sent a packet. -/
def leftover (i : Nat) (l : List Nat) (st : ReqState) : List Nat :=
  if st.gen.last then l else i :: l

theorem advance_eq (hl : p.transmitList = i :: l) :
    p.advance i st =
      { p with
        states := update p.states i (some { st with gen := st.gen.next.2 })
        transmitList := leftover i l st } := by
  unfold advance leftover
  split <;> simp [setState, hl]

/-- A packet taken moves its request on; the last one takes the request off the list. -/
theorem trySendTimingReq_taken (hl : p.transmitList = i :: l) (hs : p.states i = some st)
    (hr : ∀ r, p.inRetry = some r → r = st.createPacket i) (hp : p.retryPending = false)
    (he : p.sendEvent = false) :
    p.trySendTimingReq true = .ok
      ({ p with
          inRetry := none
          pendingCount := (p.pendingCount + 1) % 2 ^ 32
          states := update p.states i (some { st with gen := st.gen.next.2 })
          transmitList := leftover i l st
          sendEvent := decide (leftover i l st ≠ []) }, st.createPacket i) := by
  have ho : (p.offered (st.createPacket i) true).transmitList = i :: l := by simp [offered, counted, hl]
  simp only [trySendTimingReq, nextPacket_eq hl hs hr, front, hl, ok_bind, lookup, hs, afterSend, advance_eq ho]
  by_cases hn : leftover i l st = []
  · simp [offered, counted, hp, he, hn]
  · simp [offered, counted, hp, he, hn, scheduleSend]

end Send

/-! ## What a response does -/

section Resp

variable {p : ChunkPort} {i size delay : Nat} {st : ReqState}

/-- The request state with the bytes of a response added. -/
def answered (st : ReqState) (size : Nat) : ReqState := { st with numBytes := st.numBytes + size }

theorem handleResp_eq (hp : p.pendingCount ≠ 0) (hs : p.states i = some st)
    (hb : st.numBytes + size ≤ st.totBytes) (ht : st.totBytes < 2 ^ 64) :
    p.handleResp i size delay = .ok
      ((({ p with pendingCount := p.pendingCount - 1 }.setState i (answered st size)).finish i
        (answered st size) delay).signalIfDrained) := by
  have hadd : add64 st.numBytes size = st.numBytes + size := by
    rw [add64]
    omega
  simp only [handleResp, if_neg hp, lookup, hs, ok_bind, hadd, answered]
  rw [if_neg (by omega)]

/-- What a port with `n` packets in flight reports. -/
def drainSignals (n : Nat) : List Signal := if n = 0 then [.drainDone] else []

theorem signalIfDrained_eq (p : ChunkPort) :
    p.signalIfDrained = { p with signals := p.signals ++ drainSignals p.pendingCount } := by
  unfold signalIfDrained drainSignals
  split
  · rfl
  · simp

@[simp] theorem signalIfDrained_states : p.signalIfDrained.states = p.states := by
  unfold signalIfDrained
  split <;> rfl

@[simp] theorem signalIfDrained_pendingCount : p.signalIfDrained.pendingCount = p.pendingCount := by
  unfold signalIfDrained
  split <;> rfl

theorem release_eq (p : ChunkPort) (i : Nat) (event : Option Signal) :
    p.release i event = { p.delete i with signals := p.signals ++ event.toList } := by
  cases event with
  | some e => rfl
  | none => simp [release, delete]

theorem finish_cases (p : ChunkPort) (i : Nat) (st : ReqState) (delay : Nat) :
    p.finish i st delay = p ∨ ∃ sig, p.finish i st delay = { p.delete i with signals := sig } := by
  unfold finish
  split
  · split
    · exact .inr ⟨_, release_eq p i _⟩
    · exact .inl rfl
  · split
    · exact .inr ⟨_, release_eq p i _⟩
    · exact .inl rfl

end Resp

end ChunkPort

end Gem5Cxl.L2
