import Gem5Cxl.L2Machine.PacketQueue

/-!
# The plain bridge (`mem/bridge.cc`)

The response port takes requests from the CPU side and sends them responses; the request
port sends requests to the memory side and takes its responses. A request is accepted if
the request port's queue has room and, if it needs a response, there is room for that too:
`outstandingResponses` counts what is reserved. A request that is refused sets `retryReq`,
and the CPU side is told when a send has made room.

A send has two halves, before and after the peer is called (`sendTimingReq`,
`sendTimingResp`), since the peer may call the bridge from within that call. `edge` is the
bridge's `clockEdge`, which depends on its clock, and `receiveDelay` the sum of the
packet's header and payload delay.
-/
namespace Gem5Cxl.L2.PlainBridge

open Core L1

/-- mirrors bridge.hh:235-323 -/
structure BridgeRequestPort where
  transmitList : List DeferredPacket := []
  sendEvent : Option Nat := none
deriving DecidableEq, Repr

/-- mirrors bridge.hh:102-227 -/
structure BridgeResponsePort where
  transmitList : List DeferredPacket := []
  outstandingResponses : Nat := 0
  retryReq : Bool := false
  sendEvent : Option Nat := none
deriving DecidableEq, Repr

structure Bridge where
  reqQueueLimit : Nat
  respQueueLimit : Nat
  memSidePort : BridgeRequestPort := {}
  cpuSidePort : BridgeResponsePort := {}
  curTick : Nat := 0
deriving DecidableEq, Repr

namespace Bridge

variable (b : Bridge)

/-- mirrors bridge.cc:112-116 -/
def respQueueFull : Bool := b.cpuSidePort.outstandingResponses = b.respQueueLimit

/-- mirrors bridge.cc:118-122 -/
def reqQueueFull : Bool := b.memSidePort.transmitList.length = b.reqQueueLimit

def setRetryReq (retryReq : Bool) : Bridge :=
  { b with cpuSidePort := { b.cpuSidePort with retryReq } }

/-- The event is scheduled if the packet is the first in its queue. -/
def scheduleFirst (list : List DeferredPacket) (event : Option Nat) (when curTick : Nat) :
    Except Fault (Option Nat) :=
  if list = [] then schedule event when curTick else .ok event

/-- mirrors bridge.cc:216-230 -/
def schedTimingReq (pkt : Packet) (when : Nat) : Except Fault Bridge := do
  let port := b.memSidePort
  let sendEvent ← scheduleFirst port.transmitList port.sendEvent when b.curTick
  if port.transmitList.length = b.reqQueueLimit then .error (.assertion .requestSpace)
  else return { b with memSidePort := { transmitList := port.transmitList ++ [⟨when, pkt⟩], sendEvent } }

/-- mirrors bridge.cc:233-245 -/
def schedTimingResp (pkt : Packet) (when : Nat) : Except Fault Bridge := do
  let port := b.cpuSidePort
  let sendEvent ← scheduleFirst port.transmitList port.sendEvent when b.curTick
  return { b with cpuSidePort := { port with transmitList := port.transmitList ++ [⟨when, pkt⟩], sendEvent } }

/-- mirrors bridge.cc:124-145 -/
def recvTimingResp (pkt : Packet) (edge receiveDelay : Nat) : Except Fault Bridge :=
  b.schedTimingResp pkt (edge + receiveDelay)

/-- Space for a response. mirrors bridge.cc:178-179 -/
def reserve : Except Fault Bridge :=
  let n := b.cpuSidePort.outstandingResponses
  if n = b.respQueueLimit then .error (.assertion .responseSpace)
  else .ok { b with cpuSidePort := { b.cpuSidePort with outstandingResponses := n + 1 } }

/-- mirrors bridge.cc:147-204 -/
def recvTimingReq (pkt : Packet) (edge receiveDelay : Nat) :
    Except Fault (Bool × Bridge) :=
  if pkt.cacheResponding then .error (.panic "Should not see packets where cache is responding")
  else if b.cpuSidePort.retryReq then .ok (false, b)
  else if b.reqQueueFull then .ok (false, b.setRetryReq true)
  else if pkt.needsResponse then
    if b.respQueueFull then .ok (false, b.setRetryReq true)
    else do
      let b ← b.reserve
      let b ← b.schedTimingReq pkt (edge + receiveDelay)
      return (true, b)
  else do
    let b ← b.schedTimingReq pkt (edge + receiveDelay)
    return (true, b)

/-- The packet to be sent. mirrors bridge.cc:250-256 and 288-294 -/
def frontToSend (list : List DeferredPacket) (curTick : Nat) : Except Fault Packet :=
  match list with
  | [] => .error (.assertion .transmitListNonempty)
  | dp :: _ => if curTick < dp.tick then .error (.assertion .deferredPacketReady) else .ok dp.pkt

/-- After a packet was sent: the event for the next one. mirrors bridge.cc:266-272 and 307-313 -/
def scheduleNext (list : List DeferredPacket) (event : Option Nat) (edge curTick : Nat) :
    Except Fault (Option Nat) :=
  match list with
  | [] => .ok event
  | dp :: _ => schedule event (max dp.tick edge) curTick

/-- The first half of the request port's `trySendTiming`. -/
def startSendReq : Except Fault Packet := frontToSend b.memSidePort.transmitList b.curTick

/-- The second half: the peer has answered. `retryStalledReq` clears the flag.
mirrors bridge.cc:261-283 and 206-213 -/
def endSendReq (taken : Bool) (edge : Nat) : Except Fault Bridge :=
  if taken then do
    let list := b.memSidePort.transmitList.tail
    let sendEvent ← scheduleNext list b.memSidePort.sendEvent edge b.curTick
    return { b with memSidePort := { transmitList := list, sendEvent } }.setRetryReq false
  else .ok b

/-- The first half of the response port's `trySendTiming`. -/
def startSendResp : Except Fault Packet := frontToSend b.cpuSidePort.transmitList b.curTick

/-- The second half. mirrors bridge.cc:299-326 -/
def endSendResp (taken : Bool) (edge : Nat) : Except Fault Bridge :=
  if taken then
    let port := b.cpuSidePort
    let list := port.transmitList.tail
    if port.outstandingResponses = 0 then .error (.assertion .outstandingNonzero)
    else do
      let sendEvent ← scheduleNext list port.sendEvent edge b.curTick
      let b := { b with cpuSidePort :=
        { port with
          transmitList := list
          outstandingResponses := port.outstandingResponses - 1
          sendEvent } }
      return if !b.reqQueueFull && port.retryReq then b.setRetryReq false else b
  else .ok b

end Bridge

end Gem5Cxl.L2.PlainBridge
