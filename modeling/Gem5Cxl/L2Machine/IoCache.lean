import Gem5Cxl.L2Machine.PacketQueue

/-!
# The way past the I/O cache (`mem/cache/cache.cc`, `mem/cache/base.cc`)

Ordinary requests go on to `BaseCache::recvTimingReq`, which is left out: it blocks and unblocks the
CPU-side port and queues responses there. Caches are not bypassed in timing mode.
-/
namespace Gem5Cxl.L2.IoCache

open Core L1

/-- The CPU-side port, but for its queue. mirrors base.hh:254-287 -/
structure CpuSidePort where
  blocked : Bool := false
  mustSendRetry : Bool := false
  /-- The tick for which the event is scheduled. -/
  sendRetryEvent : Option Nat := none
deriving DecidableEq, Repr

/-- A retry that was to be sent is put off. mirrors base.cc:149-162 -/
def setBlocked (p : CpuSidePort) : Except Fault CpuSidePort :=
  if p.blocked then .error (.assertion .portNotBlocked)
  else .ok { blocked := true, mustSendRetry := p.mustSendRetry || p.sendRetryEvent.isSome }

/-- mirrors base.cc:164-174 -/
def clearBlocked (p : CpuSidePort) (curTick : Nat) : Except Fault CpuSidePort :=
  if !p.blocked then .error (.assertion .portBlocked)
  else if p.mustSendRetry then do
    let sendRetryEvent ← schedule p.sendRetryEvent (curTick + 1) curTick
    .ok { p with blocked := false, sendRetryEvent }
  else .ok { p with blocked := false }

/-- mirrors base.cc:2589-2603 -/
def tryTiming (p : CpuSidePort) (pkt : Packet) : CpuSidePort × Bool :=
  if pkt.expressSnoop then (p, true)
  else if p.blocked || p.mustSendRetry then ({ p with mustSendRetry := true }, false)
  else ({ p with mustSendRetry := false }, true)

/-- mirrors cache.cc:312-322 -/
def promoteWholeLineWrites (wholeLine : Bool) (pkt : Packet) : Packet :=
  { pkt with cmd := if wholeLine && pkt.cmd = .writeReq then .writeLineReq else pkt.cmd }

/-- What is sent below: an express snoop if a cache above answers, a CXL request as it is,
or nothing here. `success` is the answer of the port below. mirrors cache.cc:429-510 -/
def recvTimingReq (wholeLine : Bool) (type : CXLPacketType) (success : Bool) (pkt : Packet) :
    Except Fault (Option Packet) :=
  let pkt := promoteWholeLineWrites wholeLine pkt
  if pkt.cacheResponding then
    if !pkt.cmd.needsWritable || pkt.responderHadWritable then
      .error (.assertion .notResponderHadWritable)
    else if success then
      .ok (some { id := pkt.id, req := pkt.req, cmd := pkt.cmd, addr := pkt.addr, packetId := pkt.packetId,
                  isSecure := pkt.isSecure, cacheResponding := true, expressSnoop := true })
    else .error (.assertion .sendSucceeded)
  else if type ≠ .defaultPacket then
    if success then .ok (some pkt) else .error (.assertion .sendSucceeded)
  else .ok none

end Gem5Cxl.L2.IoCache
