import Gem5Cxl.L2Machine.ChunkPort
import Gem5Cxl.L2Machine.Dcoh

/-!
# DMA ports (`dev/dma_device.cc`)

`DmaPort` sends the regions of its device's DMA actions, in timing mode packet
by packet with responses coming later, in atomic mode all at once. The CXL
extension makes it look into its device: `dmaAction` and `sendAtomicReq` cast the
device to `CXLDevice` and read its fields, without asking `is_cxl_dev` first as
`recvAtomicSnoop` does. A device of another class has no such fields (`asCxl`).

In atomic mode a CXL device sends either a request message or, when the host has
pulled data (`need_data`), a data message that says whether it is the last one.

* `dmaAction`, `sendDma`, `recvReqRetry`, `recvTimingResp`, `abortPending`: timing mode. The
  functions shared with the CXL processor's port are in `ChunkPort`.
* `sendAtomicReq`, `sendDmaAtomic`, `dmaActionAtomic`: atomic mode without
  bypassing the caches. `traced`: the debug flag `CXLProtocol` is on, whose
  message at line 368 calls `gen.next()`. `replies n` is the request as it comes
  back with the `n`-th packet, and the latency; any peer answers with some such
  sequence. The loops take fuel.

Left out: backdoors (`sendAtomicBdReq`), data buffers, stream ids, statistics.
-/
namespace Gem5Cxl.L2

open Core L1

/-- The fields of a `CXLDevice` that its DMA port uses. mirrors
dev/cxl/TestDev/CXLDevice.hh:109,178-179 -/
structure CxlDev where
  isCxl : Bool := true
  needData : Bool := false
  dataDestAddr : Nat := 0
deriving DecidableEq, Repr

/-- The device behind `dmadevice`. -/
inductive DmaOwner
  | cxlDevice (d : CxlDev)
  | otherDevice
deriving DecidableEq, Repr

/-- `((CXLDevice *)dmadevice)->…`: a device of another class has no such field. -/
def DmaOwner.asCxl : DmaOwner → Except Fault CxlDev
  | .cxlDevice d => .ok d
  | .otherDevice => .error .badCast

namespace DmaPort

/-- `new DmaReqState(…)`. mirrors dma_device.cc:220-228 and dma_device.hh:124-132 -/
def newState (cacheLineSize : Nat) (d : CxlDev) (cmd : MemCmd) (addr size : Nat)
    (event : Option Nat) (delay : Nat) (ae : Option Nat := none) : ReqState :=
  { cmd, totBytes := size, gen := .new addr size cacheLineSize, completionEvent := event, delay,
    isCxl := d.isCxl, abortEvent := ae }

/-! ## Timing mode -/

variable (p : ChunkPort)

/-- mirrors dma_device.cc:486-500 -/
def sendDma (accept : Bool) : Except Fault (ChunkPort × Option ChunkPacket) :=
  ChunkPort.sendWith ChunkPort.trySendTimingReq p accept

/-- `i` is the identity of the new request state. The source leaves its abort event
`ae` at the constructor's default, `nullptr`. mirrors dma_device.cc:206-234 -/
def dmaAction (cacheLineSize : Nat) (owner : DmaOwner) (p : ChunkPort) (i : Nat) (cmd : MemCmd)
    (addr size : Nat) (event : Option Nat) (delay : Nat) (ae : Option Nat) (accept : Bool) :
    Except Fault (ChunkPort × Option ChunkPacket) := do
  let d ← owner.asCxl
  sendDma (p.push i (newState cacheLineSize d cmd addr size event delay ae)) accept

/-- mirrors dma_device.cc:198-204 -/
def recvReqRetry (accept : Bool) : Except Fault (ChunkPort × Option ChunkPacket) :=
  let p := { p with retryPending := false }
  if p.transmitList = [] then .ok (p, none) else do
    let (p', pkt) ← p.trySendTimingReq accept
    .ok (p', some pkt)

/-- A response with the packet type that `createPacket` gave its request. (A response
of a CXL type is handed to `CXLDevice::recvTimingResp`: it answers a packet that
the device sent by itself.) mirrors dma_device.cc:71-89,154-174 -/
def recvTimingResp (pkt : ChunkPacket) : Except Fault ChunkPort :=
  p.handleResp pkt.senderState pkt.chunk.size 0

/-- A request with packets in flight keeps its state until they are answered.
mirrors dma_device.cc:253-263 -/
def preserve : Except Fault ChunkPort :=
  match p.transmitList with
  | [] => .ok p
  | i :: l =>
    if p.pendingCount = 0 then .ok p else do
      let st ← p.lookup i
      if st.numBytes ≠ st.gen.complete then
        .ok { p.setState i { st with aborted := true } with transmitList := l }
      else .ok p

/-- `if (state->abortEvent) schedule(…); delete state`. mirrors dma_device.cc:267-271 -/
def discard (i : Nat) (st : ReqState) : ChunkPort :=
  p.release i (st.abortEvent.map (.abort i))

/-- The loop over the rest of the transmit list. mirrors dma_device.cc:265-272 -/
def discardAll : List Nat → ChunkPort → Except Fault ChunkPort
  | [], p => .ok { p with transmitList := [] }
  | i :: l, p => do
    let st ← p.lookup i
    discardAll l { discard p i st with transmitList := l }

/-- mirrors dma_device.cc:245-279 -/
def abortPending : Except Fault ChunkPort := do
  let p ← preserve { p with inRetry := none }
  let p ← discardAll p.transmitList p
  .ok { p with sendEvent := false }.signalIfDrained

/-! ## Atomic mode -/

/-- A packet as it is handed to `sendAtomic`: its chunk and its request. -/
structure Issue where
  chunk : Chunk
  req : Request
deriving DecidableEq, Repr

/-- What `makeDataPkt` was told, if it was called. -/
def Issue.lastpkt (i : Issue) : Option Bool := i.req.cxlDataAtomic2.map (·.lastData)

structure Reply where
  req : Request
  lat : Nat
deriving DecidableEq, Repr

structure Atomic where
  port : ChunkPort := {}
  owner : DmaOwner
  issued : List Issue := []

/-- `CXLDevice::makeDataPkt`. mirrors dev/cxl/TestDev/CXLDevice.cc:522-526,746-763 -/
def makeDataPkt (r : Request) (lastpkt : Bool) : Request :=
  { r with
    cxlPacketType := .cxlCacheDataPacket
    cxlDataAtomic2 := some { cxlCacheType := .d2hData, lastData := lastpkt, body := .data } }

/-- The opcodes with which the host pulls data. mirrors dev/cxl/TestDev/CXLDevice.cc:535-542 -/
def writepull : H2DRespOpCode → Bool
  | .fastGoWritePull | .goWritePull | .goWritePullDrop | .writePull => true
  | _ => false

/-- `CXLDevice::ReservedData`. mirrors dev/cxl/TestDev/CXLDevice.cc:528-552 -/
def reservedData (d : CxlDev) (addr : Nat) (m : CxlCache) : Except Fault CxlDev :=
  match m.body with
  | .h2dResp op _ =>
    .ok (if writepull op then { d with needData := true, dataDestAddr := addr } else d)
  | _ => .error .badCast

/-- The message of the packet, and the generator after it. mirrors dma_device.cc:361-379 -/
def prepare (traced : Bool) (owner : DmaOwner) (st : ReqState) (pkt : ChunkPacket) :
    Except Fault (Request × ChunkGenerator) :=
  if st.isCxl then do
    let d ← owner.asCxl
    if d.needData then
      -- the debug message of line 368 evaluates `gen.next()` as well
      let gen := if traced then st.gen.next.2 else st.gen
      .ok (makeDataPkt {} (!gen.next.1), gen.next.2)
    else
      .ok (Dcoh.makeCXLrequest { req := 0, cmd := pkt.cmd, addr := pkt.chunk.addr } {}, st.gen)
  else .ok ({}, st.gen)

def settled (d : CxlDev) : CxlDev :=
  if d.needData then { d with needData := false, dataDestAddr := 0 } else d

/-- mirrors dma_device.cc:391-396 -/
def settle (owner : DmaOwner) (done : Bool) : Except Fault DmaOwner :=
  if done then do
    let d ← owner.asCxl
    .ok (.cxlDevice (settled d))
  else .ok owner

/-- The message of a reply without data. mirrors dma_device.cc:397-399 -/
def reservable (r : Request) : Option CxlCache :=
  if r.cxlDataAtomic = none ∧ r.cxlDataAtomic2 = none then r.cxlCache else none

/-- mirrors dma_device.cc:397-406 -/
def reserve (owner : DmaOwner) (addr : Nat) (r : Request) : Except Fault DmaOwner :=
  match reservable r with
  | none => .ok owner
  | some m => do
    let d ← owner.asCxl
    let d ← reservedData d addr m
    .ok (.cxlDevice d)

/-- The port, and whether the request is done. mirrors dma_device.cc:355-410 -/
def sendAtomicReq (traced : Bool) (reply : Reply) (r : Atomic) (i : Nat) :
    Except Fault (Atomic × Bool) := do
  let st ← r.port.lookup i
  let pkt := st.createPacket i
  let x ← prepare traced r.owner st pkt
  let done := !x.2.next.1
  let owner ← settle r.owner done
  let owner ← reserve owner pkt.chunk.addr reply.req
  let p := (r.port.setState i { st with gen := x.2.next.2 }).counted
  let p ← p.handleResp i pkt.chunk.size reply.lat
  .ok ({ port := p, owner, issued := r.issued ++ [⟨pkt.chunk, x.1⟩] }, done)

/-- `while (!done) done = sendAtomicReq(state)`; `none` when the fuel is used up. -/
def sendLoop (traced : Bool) (replies : Nat → Reply) (i : Nat) :
    Nat → Atomic → Except Fault (Option Atomic)
  | 0, _ => .ok none
  | fuel + 1, r => do
    let x ← sendAtomicReq traced (replies r.issued.length) r i
    if x.2 then .ok (some x.1) else sendLoop traced replies i fuel x.1

/-- mirrors dma_device.cc:505-512 -/
def sendAll (traced : Bool) (replies : Nat → Reply) (fuel : Nat) :
    List Nat → Atomic → Except Fault (Option Atomic)
  | [], r => .ok (some r)
  | i :: l, r => do
    let r := { r with port := { r.port with transmitList := l } }
    let st ← r.port.lookup i
    if st.gen.done then sendAll traced replies fuel l r else do
      let x ← sendLoop traced replies i fuel r
      match x with
      | none => .ok none
      | some r => sendAll traced replies fuel l r

/-- mirrors dma_device.cc:486-491,501-513 -/
def sendDmaAtomic (traced : Bool) (replies : Nat → Reply) (fuel : Nat) (r : Atomic) :
    Except Fault (Option Atomic) :=
  if r.port.transmitList = [] then .error (.assertion .transmitListNonempty)
  else sendAll traced replies fuel r.port.transmitList r

/-- `dmaAction` in atomic mode, on a port at rest. mirrors dma_device.cc:206-234 -/
def dmaActionAtomic (traced : Bool) (replies : Nat → Reply) (fuel cacheLineSize : Nat)
    (owner : DmaOwner) (cmd : MemCmd) (addr size : Nat) (event : Option Nat) (delay : Nat) :
    Except Fault (Option Atomic) := do
  let d ← owner.asCxl
  let p := ({} : ChunkPort).push 0 (newState cacheLineSize d cmd addr size event delay)
  sendDmaAtomic traced replies fuel { port := p, owner }

end DmaPort

end Gem5Cxl.L2
