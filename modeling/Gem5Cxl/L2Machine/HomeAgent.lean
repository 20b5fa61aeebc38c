import Gem5Cxl.Core.Lts
import Gem5Cxl.L1Message.Packet

/-!
# The home agent (`PciBridge::HomeAgent`)

The home agent of the root complex turns host packets into CXL messages and
back:

* `makeCXLPacket`: a host access to CXL memory becomes a CXL.mem request.
* `makeCXLSnpReq`: a host access to host memory that the device may hold
  becomes a CXL.cache snoop.
* `checkCoherence`, `checkCoherenceTiming`: a device access to host-biased
  CXL memory is answered with `MemRdFwd`/`MemWrFwd`, after the host caches were
  snooped. The answer's meta value is decided by the snoop alone
  (`hasSharers`), whatever the opcode's branch wrote first.
* `makeCXLResp`, `makeCXLData`, `reciveCXL`: responses to device accesses to
  host memory.

All functions mirror mem/PciBridge.cc. The test-case switches of the source
are constants; only the branches they select are transcribed.
-/
namespace Gem5Cxl.L2.HomeAgent

open Core L1

variable (pkt : Packet)

/-- `HomeAgent::makeCXLPacket`; `none` is the return value `false`, on which
nothing has been written. mirrors PciBridge.cc:1976-2124 -/
def makeCXLPacket (r : Request) : Option Request :=
  match pkt.cmd with
  | .readExReq => some { r with
      cxlPacketType := .cxlMemPacket
      cxlReq := some (M2SReq.new ⟨.memRd, .snpInv, .meta0State, .any, pkt.addr⟩) }
  | .readSharedReq => some { r with
      cxlPacketType := .cxlMemPacket
      cxlReq := some (M2SReq.new ⟨.memRd, .snpData, .meta0State, .shared, pkt.addr⟩) }
  | .readReq => some { r with
      cxlPacketType := .cxlMemPacket
      cxlReq := some (M2SReq.new ⟨.memRd, .noOp, .noOp, .any, pkt.addr⟩) }
  | .writeReq => some { r with
      cxlPacketType := .cxlMemPacket
      cxlReq := some (M2SRwD.new ⟨.memWr, .noOp, .meta0State, .any, pkt.addr⟩) }
  | _ => none

/-- `HomeAgent::makeCXLSnpReq`. For other commands the source reads an
uninitialised opcode. mirrors PciBridge.cc:2611-2633 -/
def makeCXLSnpReq (r : Request) : Except Fault Request :=
  match pkt.cmd with
  | .readSharedReq => .ok { r with
      cxlPacketType := .cxlCacheH2DReq, cxlCache := some (h2dReq .snpData pkt.addr) }
  | .readExReq => .ok { r with
      cxlPacketType := .cxlCacheH2DReq, cxlCache := some (h2dReq .snpInv pkt.addr) }
  | _ => .error .uninitialised

/-! ## Coherence checks -/

/-- The opcode and meta value of the message for a device request, before the
meta value is overwritten. mirrors PciBridge.cc:2521-2561 -/
def memFwdOf : D2HReqOpCode → Option (M2SReqOpCode × MetaValue)
  | .rdCurr => some (.memRdFwd, .any)
  | .rdShared => some (.memRdFwd, .shared)
  | .rdAny => some (.memRdFwd, .shared)
  | .rdOwn | .rdOwnNoData => some (.memRdFwd, .invalied)
  | .woWrInv | .woWrInvF => some (.memWrFwd, .invalied)
  | _ => none

/-- The request as the home agent leaves it: the forwarding message in place of
the device's request, its meta value decided by the snoop. -/
def forwarded (opcode : M2SReqOpCode) (pkt : Packet) (r : Request) : Request :=
  { r with
    cxlCache := none
    cxlPacketType := .hostBiasCheck
    cxlReq := some (M2SReq.new ⟨opcode, .noOp, .meta0State,
      if pkt.hasSharers then .shared else .invalied, pkt.addr⟩) }

/-- The part `checkCoherence` and `checkCoherenceTiming` share: build the
message, overwrite its meta value by the snoop result, drop `cxl_cache`.
mirrors PciBridge.cc:2445-2494 and 2520-2575 -/
def answerCheck (c : CxlCache) (r : Request) : Except Fault Request := do
  let op ← c.d2hOpcode
  match memFwdOf op with
  | none => .error (.panic "incorrect CXL.cache Req in PciBridge::checkCoherence")
  | some (opcode, _) => .ok (forwarded opcode pkt r)

/-- `HomeAgent::checkCoherenceTiming`. mirrors PciBridge.cc:2507-2583 -/
def checkCoherenceTiming (r : Request) : Except Fault Request := do
  let c ← deref r.cxlCache
  if c.cxlCacheType = .d2hReq then answerCheck pkt c r
  else .error (.panic "incorrect CXL.cache Req in PciBridge::checkCoherence")

/-- `HomeAgent::checkCoherence`: as in timing mode, but the host caches are
snooped here; `snoop` is `forwardAtomic` with the write-back of its response
command. mirrors PciBridge.cc:2412-2505 -/
def checkCoherence (snoop : Packet → Packet) (pkt : Packet) (r : Request) :
    Except Fault (Packet × Request) := do
  let c ← deref r.cxlCache
  if c.cxlCacheType = .d2hReq then
    let pkt := snoop pkt
    let r ← answerCheck pkt c r
    .ok (pkt, r)
  else .error (.panic "incorrect CXL.cache Req in PciBridge::checkCoherence")

/-- `PciBridgeSlavePort::recvAtomic` on a coherence check from a device, an access
to CXL memory: the address tests before it change nothing on a DMA port. A check
that names another address is sent on as an ordinary access.
mirrors PciBridge.cc:1432-1602 -/
def recvAtomicCheck (snoop : Packet → Packet) (pkt : Packet) (r : Request) :
    Except Fault (Packet × Request) := do
  let c ← deref r.cxlCache
  if inCxlMem c.getAddr then checkCoherence snoop pkt r
  else .ok (pkt, r)

/-! ## Responses to device accesses to host memory -/

/-- The response to a device request, as `makeCXLResp` tabulates it: the
message to hang on `cxl_cache` and whether data goes with it; `none` where the
branch leaves the request alone. mirrors PciBridge.cc:2146-2402 -/
def h2dRespOf (rspData : RspDataEncoding) : D2HReqOpCode → Option (Option CxlCache × Bool)
  | .rdCurr => some (none, true)
  | .rdOwn => some (some (h2dResp .go .exclusive), true)
  | .rdShared => some (some (h2dResp .go rspData), true)
  | .rdAny => some (some (h2dResp .go rspData), true)
  | .rdOwnNoData => some (some (h2dResp .go .exclusive), false)
  | .itoMWr => some (some (h2dResp .goWritePull .modified), false)
  | .wrCur => some (some (h2dResp .goWritePull .modified), false)
  | .clFlush => some (some (h2dResp .go .invalid), false)
  | .cleanEvict => some (some (h2dResp .goWritePull .invalid), false)
  | .dirtyEvict => some (some (h2dResp .goWritePull .invalid), false)
  | .cleanEvictNoData => none
  | .woWrInv => some (some (h2dResp .fastGoWritePull .invalid), false)
  | .woWrInvF => some (some (h2dResp .fastGoWritePull .invalid), false)
  | .wrInv => some (some (h2dResp .writePull .invalid), false)
  | .cacheFlushed => some (some (h2dResp .go .invalid), false)

/-- `HomeAgent::makeCXLResp`. mirrors PciBridge.cc:2126-2409 -/
def makeCXLResp (pkt : Packet) (c : CxlCache) (r : Request) : Except Fault Request :=
  let rspData : RspDataEncoding := if pkt.hasSharers then .shared else .exclusive
  if c.cxlCacheType = .d2hReq then do
    let op ← c.d2hOpcode
    match h2dRespOf rspData op with
    | none => .ok r
    | some (cache, true) => .ok { r with
        cxlPacketType := .cxlCacheDataPacket, cxlCache := cache, cxlDataAtomic2 := some h2dData }
    | some (cache, false) => .ok { r with cxlPacketType := .cxlCachePacket, cxlCache := cache }
  else .error (.panic "incorrect CXL.cache Req in PciBridge::makeCXLResp")

/-- `HomeAgent::makeCXLData`. mirrors PciBridge.cc:2586-2608 -/
def makeCXLData (d : CxlCache) (r : Request) : Request :=
  if d.lastData = false then { r with cxlDataAtomic2 := none, cxlCache := none }
  else { r with
    cxlPacketType := .cxlCachePacket
    cxlCache := some (h2dResp .extCmp .invalid)
    cxlDataAtomic2 := none }

/-- `HomeAgent::reciveCXL`. mirrors PciBridge.cc:2637-2661 -/
def reciveCXL (r : Request) : Except Fault Request :=
  match r.cxlCache with
  | some c => if inHostMem c.getAddr then makeCXLResp pkt c r else .ok r
  | none =>
    match r.cxlDataAtomic2 with
    | some d => .ok (makeCXLData d r)
    | none => .ok r

/-! ## What the answers say -/

variable {pkt : Packet} {r r' : Request} {op : D2HReqOpCode} {opcode : M2SReqOpCode} {c : CxlCache}
  {v : MetaValue}
  {a : Nat}

theorem makeCXLPacket_slaveID (h : makeCXLPacket pkt r = some r') :
    r'.pciBridgeSlaveID = r.pciBridgeSlaveID := by
  unfold makeCXLPacket at h
  split at h <;> cases h <;> rfl

theorem makeCXLSnpReq_slaveID (h : makeCXLSnpReq pkt r = .ok r') :
    r'.pciBridgeSlaveID = r.pciBridgeSlaveID := by
  unfold makeCXLSnpReq at h
  split at h <;> cases h <;> rfl

theorem reciveCXL_ok (h : reciveCXL pkt r = .ok r') :
    r'.pciBridgeSlaveID = r.pciBridgeSlaveID ∧ (r'.cxlPacketType = r.cxlPacketType ∨
      r'.cxlPacketType = .cxlCacheDataPacket ∨ r'.cxlPacketType = .cxlCachePacket) := by
  unfold reciveCXL at h
  split at h
  · split at h
    · simp only [makeCXLResp] at h
      split at h
      · obtain ⟨op, -, h⟩ := bind_eq_ok.mp h
        split at h <;> cases h <;> simp
      · cases h
    · cases h; simp
  · split at h
    · cases h
      unfold makeCXLData
      split <;> simp
    · cases h; simp

theorem reciveCXL_none (hc : r.cxlCache = none) (hd : r.cxlDataAtomic2 = none) :
    reciveCXL pkt r = .ok r := by
  simp [reciveCXL, hc, hd]

theorem memFwdOf_opcode (h : memFwdOf op = some (opcode, v)) :
    opcode = .memRdFwd ∨ opcode = .memWrFwd := by
  cases op <;> simp_all [memFwdOf]

theorem answerCheck_ok (h : answerCheck pkt c r = .ok r') :
    ∃ opcode, (opcode = .memRdFwd ∨ opcode = .memWrFwd) ∧ r' = forwarded opcode pkt r := by
  obtain ⟨op, -, h⟩ := bind_eq_ok.mp h
  cases hf : memFwdOf op with
  | none => rw [hf] at h; cases h
  | some v =>
    rw [hf] at h
    cases h
    exact ⟨v.1, memFwdOf_opcode hf, rfl⟩

/-- A coherence check that is answered at all is answered from the snoop. -/
theorem checkCoherenceTiming_ok (h : checkCoherenceTiming pkt r = .ok r') :
    ∃ opcode, (opcode = .memRdFwd ∨ opcode = .memWrFwd) ∧ r' = forwarded opcode pkt r := by
  obtain ⟨c, -, h⟩ := bind_eq_ok.mp h
  split at h
  · exact answerCheck_ok h
  · cases h

theorem checkCoherenceTiming_d2hReq (pkt : Packet) (r : Request)
    (hr : r.cxlCache = some (d2hReq op a)) (ho : memFwdOf op = some (opcode, v)) :
    checkCoherenceTiming pkt r = .ok (forwarded opcode pkt r) := by
  unfold checkCoherenceTiming
  rw [hr]
  simp [d2hReq, answerCheck, CxlCache.d2hOpcode, ho]

theorem checkCoherence_d2hReq (snoop : Packet → Packet) (pkt : Packet) (r : Request)
    (hr : r.cxlCache = some (d2hReq op a)) (ho : memFwdOf op = some (opcode, v)) :
    checkCoherence snoop pkt r = .ok (snoop pkt, forwarded opcode (snoop pkt) r) := by
  unfold checkCoherence
  rw [hr]
  simp [d2hReq, answerCheck, CxlCache.d2hOpcode, ho]

end Gem5Cxl.L2.HomeAgent
