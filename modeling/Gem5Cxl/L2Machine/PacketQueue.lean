import Mathlib.Algebra.Ring.Nat
import Gem5Cxl.Core.Lts
import Gem5Cxl.L1Message.Packet

/-!
# Packet queues (`mem/packet_queue.cc`, `mem/packet_queue.hh`)

A port that may not send at once puts its packets in a `PacketQueue`, each with
the tick at which it may go. The queue sends the first packet of its list when
its send event fires or, after a refusal, when the peer calls `retry`.

* `schedSendTiming`: insertion, searching from the end of the list.
* `schedSendEvent`: the event is scheduled, or moved forward. `MaxTick` stands
  for "there is nothing to send".
* `sendDeferredPacket`: the send; its argument is the peer's answer.

Ticks do not wrap: no run gets to 2^64 ticks. The lookups of a functional access
and the debug output are left out.
-/
namespace Gem5Cxl.L1

/-- mirrors mem/packet.cc:402-412 -/
def Packet.matchAddr (p q : Packet) : Bool := p.addr = q.addr && p.isSecure = q.isSecure

end Gem5Cxl.L1

namespace Gem5Cxl.L2

open Core L1

/-- mirrors base/types.hh:60 -/
def maxTick : Nat := 2 ^ 64 - 1

/-- mirrors packet_queue.hh:68-76 -/
structure DeferredPacket where
  tick : Nat
  pkt : Packet
deriving DecidableEq, Repr

/-- An event is scheduled; `none` is one that is not. mirrors sim/eventq.hh:756-781 -/
def schedule (event : Option Nat) (when curTick : Nat) : Except Fault (Option Nat) :=
  if when < curTick then .error (.assertion .notInPast)
  else if event.isSome then .error (.assertion .eventNotScheduled)
  else .ok (some when)

structure PacketQueue where
  transmitList : List DeferredPacket := []
  /-- The tick for which the event is scheduled. -/
  sendEvent : Option Nat := none
  waitingOnRetry : Bool := false
  forceOrder : Bool := false
  disableSanityCheck : Bool := false
  draining : Bool := false
  drainSignals : Nat := 0
  curTick : Nat := 0
deriving DecidableEq, Repr

namespace PacketQueue

variable (q : PacketQueue)

/-- mirrors packet_queue.hh:116-117 -/
def deferredPacketReady : Bool :=
  match q.transmitList with
  | [] => false
  | dp :: _ => dp.tick ≤ q.curTick

/-- mirrors packet_queue.hh:172-173 -/
def deferredPacketReadyTime : Nat :=
  match q.transmitList with
  | [] => maxTick
  | dp :: _ => dp.tick

/-- mirrors packet_queue.cc:158-196 -/
def schedSendEvent (when : Nat) : Except Fault PacketQueue :=
  if q.waitingOnRetry then
    if q.sendEvent.isSome then .error (.assertion .eventNotScheduled) else .ok q
  else if when ≠ maxTick then
    let when := max when (q.curTick + 1)
    match q.sendEvent with
    | none => .ok { q with sendEvent := some when }
    | some t => if when < t then .ok { q with sendEvent := some when } else .ok q
  else if q.draining && q.transmitList.isEmpty && q.sendEvent.isNone then
    .ok { q with draining := false, drainSignals := q.drainSignals + 1 }
  else .ok q

/-- The new packet goes behind this one at the latest. mirrors packet_queue.cc:143 -/
def holdsBack (forceOrder : Bool) (when : Nat) (pkt : Packet) (dp : DeferredPacket) : Bool :=
  (forceOrder && dp.pkt.matchAddr pkt) || dp.tick ≤ when

/-- The search from the end of the list; `none` if it gets to the front.
mirrors packet_queue.cc:140-149 -/
def emplace (forceOrder : Bool) (when : Nat) (pkt : Packet) :
    List DeferredPacket → Option (List DeferredPacket)
  | [] => none
  | dp :: l =>
    match emplace forceOrder when pkt l with
    | some l' => some (dp :: l')
    | none => if holdsBack forceOrder when pkt dp then some (dp :: ⟨when, pkt⟩ :: l) else none

/-- mirrors packet_queue.cc:106-156 -/
def schedSendTiming (pkt : Packet) (when : Nat) : Except Fault PacketQueue :=
  if when < q.curTick then .error (.assertion .notInPast)
  else if pkt.expressSnoop then .error (.assertion .notExpressSnoop)
  else if !q.disableSanityCheck && 128 < q.transmitList.length then
    .error (.panic "Packet queue %s has grown beyond 128 packets\n")
  else
    match emplace q.forceOrder when pkt q.transmitList with
    | some l => .ok { q with transmitList := l }
    | none => schedSendEvent { q with transmitList := ⟨when, pkt⟩ :: q.transmitList } when

/-- The queue, and the packet if the peer took it. mirrors packet_queue.cc:198-228 -/
def sendDeferredPacket (sent : Bool) :
    Except Fault (PacketQueue × Option DeferredPacket) :=
  if q.waitingOnRetry then .error (.assertion .notWaitingOnRetry)
  else if !q.deferredPacketReady then .error (.assertion .deferredPacketReady)
  else
    match q.transmitList with
    | [] => .error .endIterator
    | dp :: l =>
      if sent then do
        let q := { q with transmitList := l }
        let q ← q.schedSendEvent q.deferredPacketReadyTime
        .ok (q, some dp)
      else .ok ({ q with waitingOnRetry := true }, none)

/-- mirrors packet_queue.cc:230-236 -/
def processSendEvent (sent : Bool) :
    Except Fault (PacketQueue × Option DeferredPacket) :=
  if q.waitingOnRetry then .error (.assertion .notWaitingOnRetry) else q.sendDeferredPacket sent

/-- mirrors packet_queue.cc:65-72 -/
def retry (sent : Bool) : Except Fault (PacketQueue × Option DeferredPacket) :=
  if !q.waitingOnRetry then .error (.assertion .waitingOnRetry)
  else sendDeferredPacket { q with waitingOnRetry := false } sent

/-- mirrors packet_queue.cc:238-247 -/
def drain : PacketQueue := { q with draining := !q.transmitList.isEmpty }

end PacketQueue

end Gem5Cxl.L2
