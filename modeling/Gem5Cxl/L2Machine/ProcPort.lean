import Gem5Cxl.L2Machine.ChunkPort

/-!
# The CXL processor's port (`dev/cxl/TestDev/CXLProcessor.cc`)

`CXLProcPort` in timing mode. Its sending half is a copy of the DMA port's; the
callbacks of the timing protocol are the ones of the header
(`dev/cxl/TestDev/CXLProcessor.hh:50-55`): `recvTimingResp` returns 0 and
`recvReqRetry` has an empty body. `handleRespPacket` is only called by the
atomic path, which is not modelled.
-/
namespace Gem5Cxl.L2.ProcPort

open Core L1

/-- mirrors dev/cxl/TestDev/CXLProcessor.cc:190-238 -/
def trySendTimingReq (p : ChunkPort) (accept : Bool) : Except Fault (ChunkPort × ChunkPacket) := do
  let pkt ← p.nextPacket
  if pkt.cmd = .writeReq ∨ pkt.cmd = .readReq then p.trySendTimingReq accept
  else .error (.panic "CXLProcessor::trySendTimingReq unknown cmd!!\n")

/-- In timing mode. mirrors dev/cxl/TestDev/CXLProcessor.cc:91-104 -/
def sendPacket (p : ChunkPort) (accept : Bool) : Except Fault (ChunkPort × Option ChunkPacket) :=
  ChunkPort.sendWith trySendTimingReq p accept

/-- `new CXLProcReqState(cmd, addr, sys->cacheLineSize(), size, data, 0, NULL, 100)` -/
def newState (cacheLineSize addr size : Nat) (cmd : MemCmd) : ReqState :=
  { cmd, totBytes := size, gen := .new addr size cacheLineSize, delay := 100 }

/-- `i` is the identity of the new request state. mirrors
dev/cxl/TestDev/CXLProcessor.cc:77-89 -/
def execCXLProc (cacheLineSize : Nat) (p : ChunkPort) (i addr size : Nat) (cmd : MemCmd)
    (accept : Bool) : Except Fault (ChunkPort × Option ChunkPacket) :=
  sendPacket (p.push i (newState cacheLineSize addr size cmd)) accept

/-- mirrors dev/cxl/TestDev/CXLProcessor.cc:240-246 -/
def cxlWrite (cacheLineSize : Nat) (p : ChunkPort) (i addr size : Nat) (accept : Bool) :
    Except Fault (ChunkPort × Option ChunkPacket) :=
  execCXLProc cacheLineSize p i addr size .writeReq accept

/-- mirrors dev/cxl/TestDev/CXLProcessor.cc:248-253 -/
def cxlRead (cacheLineSize : Nat) (p : ChunkPort) (i addr size : Nat) (accept : Bool) :
    Except Fault (ChunkPort × Option ChunkPacket) :=
  execCXLProc cacheLineSize p i addr size .readReq accept

/-- mirrors dev/cxl/TestDev/CXLProcessor.hh:51 -/
def recvTimingResp (p : ChunkPort) (_ : ChunkPacket) : ChunkPort × Bool := (p, false)

/-- The port, and the packet it offers again. mirrors dev/cxl/TestDev/CXLProcessor.hh:53 -/
def recvReqRetry (p : ChunkPort) : ChunkPort × Option ChunkPacket := (p, none)

/-- mirrors dev/cxl/TestDev/CXLProcessor.cc:255-264 -/
def drain (p : ChunkPort) : DrainState := p.drain

end Gem5Cxl.L2.ProcPort
