import Gem5Cxl.Core.Lts
import Gem5Cxl.L1Message.Packet

/-!
# The device coherence engine (`CXLDevice::DCOH`)

DCOH keeps one *bias* bit per 4 KB page of CXL memory. In host bias the device
must ask the host before it touches the page; in device bias it does not. The
bit is written by the responses to host requests (`makeCXLresponse`) and by
the host's answer to a coherence check (`applyMemFwd`, the block that
`CXLDevice::hostSend` and `CXLDevice::recvTimingResp` share word for word).

`Bias_Table` is a map from page numbers; a page that was never set is
entered as host biased on its first lookup. `isHostBiasMode` therefore
returns the new table with its answer.

All functions mirror dev/cxl/TestDev/CXLDevice.cc. The read and write of the
device's own memory (`ReadData`, `WriteData`) move data only and are left out.
-/
namespace Gem5Cxl.L2.Dcoh

open Core L1 Function

/-! ## Bias table -/

/-- `std::unordered_map<Addr, bool>` from page numbers; `true` is host bias. -/
abbrev BiasTable := Nat → Option Bool

/-- `addr >> 12` -/
def pageNum (addr : Nat) : Nat := addr >>> 12

/-- mirrors CXLDevice.cc:1203-1215 -/
def setBiasMode (t : BiasTable) (addr : Nat) (biasBit : Bool) : Except Fault BiasTable :=
  if inCxlMem addr then
    if t (pageNum addr) = some biasBit then .ok t
    else .ok (Function.update t (pageNum addr) (some biasBit))
  else .error (.assertion .biasAddr)

/-- mirrors CXLDevice.cc:1218-1237 -/
def isHostBiasMode (t : BiasTable) (addr : Nat) : Except Fault (Bool × BiasTable) :=
  if inCxlMem addr then
    match t (pageNum addr) with
    | some biasState => .ok (biasState, t)
    | none => do
      let t' ← setBiasMode t addr true
      .ok (true, t')
  else .error (.assertion .biasAddr)

/-- The bias of a page: what `isHostBiasMode` answers for its addresses. -/
def hostBias (t : BiasTable) (page : Nat) : Bool := (t page).getD true

theorem pageNum_eq (a : Nat) : pageNum a = a / 4096 := by
  simp [pageNum, Nat.shiftRight_eq_div_pow]

variable {a : Nat}

theorem setBiasMode_ok (t : BiasTable) (b : Bool) (ha : inCxlMem a = true) :
    setBiasMode t a b = .ok (update t (pageNum a) (some b)) := by
  unfold setBiasMode
  rw [if_pos ha]
  split
  · rename_i h
    rw [← h, update_eq_self]
  · rfl

theorem setBiasMode_eq_ok {t t' : BiasTable} {b : Bool} (h : setBiasMode t a b = .ok t') :
    inCxlMem a = true ∧ t' = update t (pageNum a) (some b) := by
  by_cases ha : inCxlMem a = true
  · rw [setBiasMode_ok t b ha] at h
    cases h
    exact ⟨ha, rfl⟩
  · simp [setBiasMode, ha] at h

theorem isHostBiasMode_ok (t : BiasTable) (ha : inCxlMem a = true) :
    isHostBiasMode t a = .ok (hostBias t (pageNum a),
      update t (pageNum a) (some (hostBias t (pageNum a)))) := by
  unfold isHostBiasMode hostBias
  rw [if_pos ha]
  cases h : t (pageNum a) with
  | some b =>
    have hu : update t (pageNum a) (some b) = t := by rw [← h, update_eq_self]
    simp [hu]
  | none => rw [setBiasMode_ok t true ha]; rfl

theorem hostBias_update (t : BiasTable) (p q : Nat) (b : Bool) :
    hostBias (update t p (some b)) q = if q = p then b else hostBias t q := by
  unfold hostBias
  by_cases h : q = p
  · subst h; simp
  · simp [h]

theorem hostBias_lookup (t : BiasTable) (p q : Nat) :
    hostBias (update t p (some (hostBias t p))) q = hostBias t q := by
  rw [hostBias_update]
  split
  · rename_i h; rw [h]
  · rfl

/-! ## Answering a host request -/

/-- What one branch of `makeCXLresponse` decides: the response, and whether it
calls `set_bias_mode(addr, 1)`. -/
structure Answer where
  ndr : S2MNDR
  toHostBias : Bool := false
deriving DecidableEq, Repr

/-- `MemInv` and `MemInvNT`. mirrors CXLDevice.cc:807-866 -/
def answerMemInv (m : M2SReq) : Except Fault Answer :=
  match m.metaFiled with
  | .noOp =>
    if m.snpType = .snpInv then .ok { ndr := ⟨.cmp, .noOp, .invalied⟩ }
    else .error (.panic "invaild request recive device (MemInv/NT, MF:no)\n")
  | .meta0State =>
    match m.snpType with
    | .snpInv =>
      match m.metaValue with
      | .invalied => .ok { ndr := ⟨.cmp, .noOp, .invalied⟩ }
      | .any => .ok { ndr := ⟨.cmpE, .noOp, .any⟩, toHostBias := true }
      | .shared => .error (.panic "invaild request recive device (MemInv/NT, MF:M0S, SnpInv)\n")
    | .snpData =>
      if m.metaValue = .shared then .ok { ndr := ⟨.cmpS, .noOp, .any⟩, toHostBias := true }
      else .error (.panic "invaild request recive device (MemInv/NT, MF:M0S, SnpData)\n")
    | _ => .error (.panic "invaild request recive device (MemInv/NT, MF:M0S)\n")

/-- `MemRd`. mirrors CXLDevice.cc:868-957 -/
def answerMemRd (m : M2SReq) : Except Fault Answer :=
  match m.metaFiled with
  | .meta0State =>
    match m.metaValue with
    | .any =>
      if m.snpType = .snpInv then .ok { ndr := ⟨.cmpE, .noOp, .any⟩, toHostBias := true }
      else .error (.panic "invaild request recive device (MemRd, MF:M2S Any)\n")
    | .shared =>
      if m.snpType = .snpData then .ok { ndr := ⟨.cmpS, .noOp, .any⟩, toHostBias := true }
      else .error (.panic "invaild request recive device (MemRd, MF:M2S Shared)\n")
    | .invalied =>
      if m.snpType = .snpInv ∨ m.snpType = .snpCur then .ok { ndr := ⟨.cmp, .noOp, .any⟩ }
      else .error (.panic "invaild request recive device (MemRd, MF:M2S Invalid)\n")
  | .noOp =>
    if m.snpType = .snpData then
      .error (.panic "invaild request recive device (MemRd, MF:M2S Invalid)\n")
    else .ok { ndr := ⟨.cmp, .noOp, .any⟩ }

/-- `MemClnEvct`. mirrors CXLDevice.cc:959-985 -/
def answerMemClnEvct (m : M2SReq) : Except Fault Answer :=
  if m.metaFiled = .noOp then
    .error (.panic "invaild request recive device (MemClnEvct req but MataField worng)\n")
  else if m.snpType = .noOp then
    if m.metaValue = .any then .ok { ndr := ⟨.cmp, .noOp, .invalied⟩ }
    else .error (.panic "invaild request recive device (MemClnEvct req but MetaValue worng)\n")
  else .error (.panic "invaild request recive device (MemClnEvct req but SnpType worng)\n")

/-- `MemRdData`. mirrors CXLDevice.cc:987-1004 -/
def answerMemRdData (m : M2SReq) : Except Fault Answer :=
  if m.snpType = .snpData then
    .ok { ndr := ⟨.cmpE, .meta0State, .invalied⟩, toHostBias := true }
  else .error (.panic "invaild request recive device (MemRdData)\n")

/-- `MemWr` and `MemWrPtl`. The source tests `req_snoop_type == Meta0_State`,
which compares the snoop type with 0, that is with `No_Op`; the branches for
other snoop types below that test cannot be reached. mirrors CXLDevice.cc:1018-1090 -/
def answerMemWr (m : M2SRwD) : Except Fault Answer :=
  if m.snpType = .noOp then
    match m.metaValue with
    | .any => .ok { ndr := ⟨.cmp, .noOp, .invalied⟩, toHostBias := true }
    | .shared => .ok { ndr := ⟨.cmp, .noOp, .invalied⟩, toHostBias := true }
    | .invalied => .ok { ndr := ⟨.cmp, .noOp, .invalied⟩ }
  else .error (.panic "invaild request recive device (MemWr)\n")

/-- The tail every answering branch shares: call `set_bias_mode` if the branch
does, then hang the response on the request. -/
def Answer.send (w : Answer) (lastResp : Bool) (addr : Nat) (r : Request) (t : BiasTable) :
    Except Fault (Request × BiasTable) := do
  let t' ← (if w.toHostBias then setBiasMode t addr true else .ok t)
  .ok ({ r with
    cxlPacketType := .cxlMemPacket
    cxlReq := some { cxlReqType := .s2mNDR, lastResp := lastResp, body := .s2mNDR w.ndr } }, t')

/-- A response touches the table only to move the page of its address to host bias. -/
theorem Answer.send_ok {w : Answer} {last : Bool} {r r' : Request} {t t' : BiasTable}
    (h : w.send last a r t = .ok (r', t')) :
    if w.toHostBias then inCxlMem a = true ∧ t' = update t (pageNum a) (some true) else t' = t := by
  obtain ⟨t1, ht, h⟩ := bind_eq_ok.mp h
  cases h
  split at ht
  · rename_i hb
    rw [if_pos hb]
    exact setBiasMode_eq_ok ht
  · rename_i hb
    rw [if_neg hb]
    cases ht
    rfl

variable (pkt : Packet)

/-- `DCOH::makeCXLresponse`. The opcodes without a branch only have their type
tag rewritten. mirrors CXLDevice.cc:765-1102 -/
def makeCXLresponse (r : Request) (t : BiasTable) :
    Except Fault (Request × BiasTable) := do
  let c ← deref r.cxlReq
  match c.cxlReqType with
  | .m2sReq =>
    let m ← c.toM2SReq
    match m.memOpcode with
    | .memRdFwd | .memWrFwd => .ok (r, t)
    | .memInv | .memInvNT => (← answerMemInv m).send true pkt.addr r t
    | .memRd => (← answerMemRd m).send false pkt.addr r t
    | .memClnEvct => (← answerMemClnEvct m).send true pkt.addr r t
    | .memRdData => (← answerMemRdData m).send false pkt.addr r t
    | _ => .ok ({ r with cxlReq := some { c with cxlReqType := .s2mNDR } }, t)
  | .m2sRwD =>
    let m ← c.toM2SRwD
    match m.memOpcode with
    | .memWr | .memWrPtl => (← answerMemWr m).send true pkt.addr r t
    | .biConflict => .ok (r, t)
  | _ => .ok (r, t)

/-- `DCOH::makeMemDataAtomic`. mirrors CXLDevice.cc:1105-1126 -/
def makeMemDataAtomic (r : Request) : Except Fault Request := do
  let c ← deref r.cxlReq
  let ndr ← c.toS2MNDR
  .ok { r with
    cxlPacketType := .cxlMemDataPacket
    cxlDataAtomic := some ⟨ndr.metafiled, ndr.metavalue⟩
    cxlReq := some { c with cxlReqType := .s2mDRS, lastResp := true } }

/-! ## Asking the host -/

/-- The opcode `DCOH::makeCXLrequest` picks with its fixed test-case switches
(`ReadCur = 0`, `ReadAny = 1`). mirrors CXLDevice.cc:657-695 -/
def d2hOpcodeOf : MemCmd → D2HReqOpCode
  | .readExReq => .rdOwn
  | .readSharedReq => .rdShared
  | .flushReq => .clFlush
  | _ => .rdAny

/-- `DCOH::makeCXLrequest`. mirrors CXLDevice.cc:638-748 -/
def makeCXLrequest (r : Request) : Request :=
  { r with
    cxlPacketType :=
      if r.cxlPacketType ≠ .hostBiasCheck then .cxlCachePacket else r.cxlPacketType
    cxlCache := some (d2hReq (d2hOpcodeOf pkt.cmd) pkt.addr) }

/-- The update of the bias table from the host's `MemRdFwd`/`MemWrFwd`
message, as `CXLDevice::hostSend` and `CXLDevice::recvTimingResp` write it.
mirrors CXLDevice.cc:353-379 and 1284-1311 -/
def applyMemFwd (r : Request) (t : BiasTable) : Except Fault BiasTable := do
  let c ← deref r.cxlReq
  let m ← c.toM2SReq
  match m.memOpcode with
  | .memRdFwd | .memWrFwd =>
    match m.metaFiled with
    | .meta0State =>
      match m.metaValue with
      | .any => setBiasMode t pkt.addr true
      | .shared => setBiasMode t pkt.addr true
      | .invalied => setBiasMode t pkt.addr false
    | .noOp => .ok t
  | _ => .ok t

/-- A forwarding message sets the page's bias: to device bias if the host says its
copies are invalid, to host bias otherwise. -/
theorem applyMemFwd_fwd {pkt : Packet} {r : Request} {t : BiasTable} {opcode : M2SReqOpCode}
    {s : M2SSnpType} {v : MetaValue} (ho : opcode = .memRdFwd ∨ opcode = .memWrFwd)
    (hr : r.cxlReq = some (M2SReq.new ⟨opcode, s, .meta0State, v, a⟩)) :
    applyMemFwd pkt r t = setBiasMode t pkt.addr (v ≠ .invalied) := by
  unfold applyMemFwd
  rw [hr]
  rcases ho with rfl | rfl <;> cases v <;> rfl

/-- `CXLDevice::hostSend`; `sendAtomic` is what the host's side does to the packet
and the request. mirrors CXLDevice.cc:345-402 -/
def hostSend (sendAtomic : Packet → Request → Except Fault (Packet × Request)) (pkt : Packet)
    (r : Request) (t : BiasTable) : Except Fault (Request × BiasTable) := do
  let r := if r.cxlPacketType ≠ .cxlCacheH2DReq then makeCXLrequest pkt r else r
  let (pkt, r) ← sendAtomic pkt r
  let t ← (if r.cxlPacketType = .hostBiasCheck then applyMemFwd pkt r t else .ok t)
  .ok (r, t)

/-- `DCOH::sinkPacket`. mirrors CXLDevice.hh:194-202 -/
def sinkPacket (p : Packet) : Bool :=
  p.cacheResponding || (!(p.cmd.isRead || p.cmd.isWrite) && !p.cmd.needsResponse) ||
    (p.isCleanEviction && p.blockCached) ||
    (p.cacheResponding && (!p.cmd.needsWritable || p.responderHadWritable))

/-- `DCOH::makeSnoopResp`: the states are writable, dirty, valid from bit 2
down. mirrors CXLDevice.cc:1128-1178 -/
def makeSnoopResp (r : Request) : Except Fault Request :=
  let old := r.oldState
  let new := r.newState
  let shared := old = 0b001 ∨ old = 0b011 ∨ old = 0b101
  let resp (op : D2HRespOpCode) : Except Fault Request :=
    .ok { r with cxlCache := some (d2hResp op) }
  if old = 0b000 then resp .rspIHitI
  else if (new = 0b001 ∨ new = 0b011) ∧ old = 0b111 then resp .rspSFwdM
  else if new = 0b000 ∧ old = 0b111 then resp .rspIFwdM
  else if new = 0b000 ∧ shared then resp .rspIHitSE
  else if new = 0b001 ∧ shared then resp .rspSHitSE
  else if old = new ∧ sinkPacket pkt = false then resp .rspVHitV
  else if old = new ∧ sinkPacket pkt = true then resp .rspVFwdV
  else .error (.panic "no resp snoop\n")

/-! ## The device's ports -/

/-- What `InternalPort::memActionTiming` does to the request before it sends
the packet into the device. mirrors CXLDevice.cc:59-76 -/
def memActionTiming (r : Request) : Request :=
  if r.cxlPacketType ≠ .hostBiasCheck then { r with cxlPacketType := .cxlCacheH2DResp } else r

/-- What `CXLDevice::hostSendTiming` does to the request before it sends the
packet to the host. mirrors CXLDevice.cc:404-415 -/
def hostSendTiming (r : Request) : Except Fault Request :=
  if r.cxlPacketType = .cxlCacheH2DResp then makeSnoopResp pkt r else .ok (makeCXLrequest pkt r)

/-- Where `CXLDevice::recvTimingResp` sends a response on. -/
inductive RespPort | pioPort | exPort
deriving DecidableEq, Repr

/-- The block of `recvTimingResp` for responses from the device's memory: answer
the host's message, with data if the answer asks for it.
mirrors CXLDevice.cc:1268-1277 -/
def answerFromMemory (r : Request) (t : BiasTable) :
    Except Fault (Request × BiasTable) := do
  let (r, t) ← makeCXLresponse pkt r t
  let c ← deref r.cxlReq
  if c.lastResp = false then do
    let r ← makeMemDataAtomic r
    .ok (r, t)
  else .ok (r, t)

/-- The last block of `recvTimingResp`: where the response goes next. -/
def sendResp (r : Request) (t : BiasTable) :
    Except Fault (RespPort × Request × BiasTable) :=
  match r.cxlPacketType with
  | .cxlMemPacket | .cxlMemDataPacket => .ok (.pioPort, r, t)
  | .cxlCachePacket | .cxlCacheDataPacket | .hostBiasCheck => .ok (.exPort, r, t)
  | .cxlCacheH2DResp => do
    let r ← makeSnoopResp pkt r
    .ok (.pioPort, r, t)
  | _ => .error (.panic "incorrect resp\n")

/-- `CXLDevice::recvTimingResp`. mirrors CXLDevice.cc:1260-1337 -/
def recvTimingResp (r : Request) (t : BiasTable) :
    Except Fault (RespPort × Request × BiasTable) := do
  let (r, t) ← (if r.cxlPacketType ≠ .hostBiasCheck ∧ inCxlMem pkt.addr = true
    then answerFromMemory pkt r t else .ok (r, t))
  let t ← (if r.cxlPacketType = .hostBiasCheck then applyMemFwd pkt r t else .ok t)
  sendResp pkt r t

/-- `DCOH::recvCoherentCheckReq`: the check comes back as a request when no
host cache answered it. The packet goes on into the device; the bias table is
not an argument, since no code on this path touches it.
mirrors CXLDevice.cc:1379-1391 -/
def recvCoherentCheckReq (r : Request) : Except Fault Request :=
  if inCxlMem pkt.addr then .ok (memActionTiming r)
  else if r.cxlPacketType = .cxlCacheH2DReq then .ok (memActionTiming r)
  else .error (.panic "ReadDataTiming: incorrect pkt\n")

/-- The branches of `DCOH::recvTimingReq`. -/
inductive ReqBranch | snoop | host | memory
deriving DecidableEq, Repr

/-- `DCOH::recvTimingReq`: its branch, and the request once the packet has been
offered to the next port, which may refuse it. `ReadDataTiming` and
`WriteDataTiming` differ in their traces only; below CXL memory control runs off
the end. mirrors CXLDevice.cc:1339-1377, 287-326 -/
def recvTimingReq (r : Request) : Except Fault (ReqBranch × Request) :=
  if r.cxlPacketType = .cxlCacheH2DReq then do
    let r ← recvCoherentCheckReq pkt r
    .ok (.snoop, r)
  else if inHostMem pkt.addr ∨ r.cxlPacketType = .hostBiasCheck then
    .ok (.host, makeCXLrequest pkt r)
  else if inCxlMem pkt.addr then
    if r.cxlReq.isNone then .error (.assertion .cxlReqPresent) else do
    let r ← recvCoherentCheckReq pkt r
    .ok (.memory, r)
  else .error .uninitialised

end Gem5Cxl.L2.Dcoh
