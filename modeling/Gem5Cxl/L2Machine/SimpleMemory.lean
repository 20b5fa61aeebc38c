import Gem5Cxl.L2Machine.PacketQueue

/-!
# The simple memory (`mem/simple_mem.cc`)

One request at a time keeps the memory busy, for as long as its transfer takes; a request
that comes in that time is refused and told to retry when `releaseEvent` fires. Responses
wait in `packetQueue` until their tick. A response goes behind the packets of its address
and those that are due no later, and never before the first packet, for which
`dequeueEvent` may be scheduled already.

A dequeue has two halves, before and after `sendTimingResp`, since the peer may send
requests from within that call. `duration` is the packet's size times the time per byte,
`receiveDelay` the sum of its header and payload delay, and `latency` what `getLatency`
returns for it. Of `recvAtomic` there is the response it makes of the packet; what it does
to the bytes of the memory is in `AbstractMem`. Draining is left out.
-/
namespace Gem5Cxl.L2

open Core L1

/-- mirrors simple_mem.hh:126-167 -/
structure SimpleMemory where
  packetQueue : List DeferredPacket := []
  isBusy : Bool := false
  retryReq : Bool := false
  retryResp : Bool := false
  releaseEvent : Option Nat := none
  dequeueEvent : Option Nat := none
  curTick : Nat := 0
deriving DecidableEq, Repr

namespace SimpleMemory

/-- The insertion sort, from the last packet on. In an empty list the packet before the end is the
end itself, and the new packet is the only one. mirrors simple_mem.cc:181-189 -/
def emplace (list : List DeferredPacket) (when : Nat) (pkt : Packet) : List DeferredPacket :=
  match list with
  | [] => [⟨when, pkt⟩]
  | dp :: rest => dp :: (PacketQueue.emplace true when pkt rest).getD (⟨when, pkt⟩ :: rest)

/-- The response that `recvAtomic` makes of the packet. mirrors mem/abstract_mem.cc:476-478 -/
def recvAtomic (pkt : Packet) : Except Fault Packet :=
  if pkt.needsResponse then pkt.makeResponse else .ok pkt

variable (m : SimpleMemory)

/-- The memory is busy while the packet is transferred. mirrors simple_mem.cc:159-162 -/
def occupy (duration : Nat) : Except Fault SimpleMemory :=
  if duration ≠ 0 then do
    let releaseEvent ← schedule m.releaseEvent (m.curTick + duration) m.curTick
    return { m with releaseEvent, isBusy := true }
  else .ok m

/-- mirrors simple_mem.cc:172-192 -/
def queueResponse (pkt : Packet) (whenToSend : Nat) : Except Fault SimpleMemory :=
  if pkt.cmd.isResponse = false then .error (.assertion .isResponse)
  else
    let packetQueue := emplace m.packetQueue whenToSend pkt
    if m.retryResp = false ∧ m.dequeueEvent = none then do
      let back := (packetQueue.getLast?.map (·.tick)).getD 0
      let dequeueEvent ← schedule m.dequeueEvent back m.curTick
      return { m with packetQueue, dequeueEvent }
    else .ok { m with packetQueue }

/-- mirrors simple_mem.cc:118-198 -/
def recvTimingReq (pkt : Packet) (duration receiveDelay latency : Nat) :
    Except Fault (Bool × SimpleMemory) :=
  if pkt.cacheResponding then .error (.panic "Should not see packets where cache is responding")
  else if !(pkt.cmd.isRead || pkt.cmd.isWrite) then
    .error (.panic "Should only see read and writes at memory controller, saw %s to %#llx\n")
  else if m.retryReq then .ok (false, m)
  else if m.isBusy then .ok (false, { m with retryReq := true })
  else do
    let m ← m.occupy duration
    let rsp ← recvAtomic pkt
    if pkt.needsResponse then
      let m ← m.queueResponse rsp (m.curTick + receiveDelay + latency)
      return (true, m)
    else return (true, m)

/-- Whether a retry is sent, and the memory after it. mirrors simple_mem.cc:200-209 -/
def release : Except Fault (Bool × SimpleMemory) :=
  if m.isBusy = false then .error (.assertion .memoryBusy)
  else .ok (m.retryReq, { m with isBusy := false, retryReq := false })

/-- The first half of `dequeue`. mirrors simple_mem.cc:211-215 -/
def startDequeue : Except Fault DeferredPacket :=
  match m.packetQueue with
  | [] => .error (.assertion .packetQueueNonempty)
  | dp :: _ => .ok dp

/-- The second half: the peer has answered. mirrors simple_mem.cc:217-234 -/
def endDequeue (taken : Bool) : SimpleMemory :=
  if taken then
    match m.packetQueue.tail with
    | [] => { m with packetQueue := [], retryResp := false }
    | dp :: rest =>
      { m with
        packetQueue := dp :: rest
        retryResp := false
        dequeueEvent := some (max dp.tick m.curTick) }
  else { m with retryResp := true }

/-- mirrors simple_mem.cc:243-249 -/
def recvRespRetry : Except Fault DeferredPacket :=
  if m.retryResp = false then .error (.assertion .awaitingRetry) else m.startDequeue

end SimpleMemory

end Gem5Cxl.L2
