import Gem5Cxl.L2Machine.ConfigSpace
import Gem5Cxl.L2Machine.HomeAgent

/-!
# The PCI bridge in timing mode (`PciBridge`)

A bridge has four slave ports that take requests and four master ports that
send them on. A slave port reserves a slot for the response when it accepts a
request that needs one (`outstandingResponses`), and gives it back when it has
sent the response. Master ports queue requests (`transmitList`); once a request
is sent, `routeTo` remembers which slave port its response goes to.

The CXL extension works on the packet before it is admitted: `buildMessage` is
everything `recvTimingReq` does between the `retryReq` test and the queue tests.
Packets of type `HostBiasCheck`, `CXLcacheH2DReq` and `CXLcacheH2DResp` are not
entered in `routeTo`; the responses of the first and the last go to fixed ports.

* `recvTimingReq`, `trySendReq`, `recvTimingResp`, `trySendResp`: one call of
  each port function. The bridge holds packets; the requests behind them live
  in `req`, since every packet of a request sees the same fields.
* `recvTimingReq_ok`, `trySendReq_ok`, `recvTimingResp_ok`, `trySendResp_ok`:
  everything a completed call did to the bridge.

All functions mirror mem/PciBridge.cc. Time is left out, so a scheduled send is
a step that may happen as soon as its list is not empty. A retry sent to a peer
is not an effect on the bridge. `getSlavePort(req_bus)` is left out: its answer
is always overwritten.
-/
namespace Gem5Cxl.L2.PciBridge

open Core L1 L2.ConfigSpace HomeAgent Function

structure SlaveState where
  outstandingResponses : Nat := 0
  retryReq : Bool := false
  transmitList : List Packet := []
deriving DecidableEq, Repr

structure Bridge where
  decoder : Decoder
  reqQueueLimit : Nat
  respQueueLimit : Nat
  slave : SlavePort → SlaveState := fun _ => {}
  master : MasterPort → List Packet := fun _ => []
  routeTo : ReqId → Option SlavePort := fun _ => none
  req : ReqId → Request := fun _ => {}

namespace Bridge

def setReq (b : Bridge) (q : ReqId) (r : Request) : Bridge :=
  { b with req := update b.req q r }

def setSlave (b : Bridge) (p : SlavePort) (s : SlaveState) : Bridge :=
  { b with slave := update b.slave p s }

def setMaster (b : Bridge) (m : MasterPort) (l : List Packet) : Bridge :=
  { b with master := update b.master m l }

def setRoute (b : Bridge) (q : ReqId) (p : Option SlavePort) : Bridge :=
  { b with routeTo := update b.routeTo q p }

end Bridge

/-! ## Accepting a request -/

/-- A host access to the CXL device or its memory. mirrors PciBridge.cc:1114-1135 -/
def hostToCxl (pkt : Packet) (r : Request) : Except Fault Request :=
  match HomeAgent.makeCXLPacket pkt r with
  | some r' => .ok r'
  | none => .error (.panic "failed make CXL Packet\n")

/-- A host access to host memory, sent here for a snoop of the device.
mirrors PciBridge.cc:1136-1156 -/
def hostToHost (pkt : Packet) (r : Request) : Except Fault Request :=
  if r.cxlPacketType = .cxlCacheH2DReq then HomeAgent.makeCXLSnpReq pkt r
  else .error (.panic ("(CXL_Debug) TimingCPU: For host-to-host access where snoop is not " ++
    "required, packets should not reach PCIBrige.\n"))

/-- The address-dependent part: only packets of the upstream port are changed.
mirrors PciBridge.cc:1114-1185 -/
def convertHostAccess (d : Decoder) (p : SlavePort) (pkt : Packet) (r : Request) :
    Except Fault (Request × MasterPort) :=
  let m := getMasterPort d pkt.addr
  if inCxlDev pkt.addr then
    if p = .slave then do
      let r' ← hostToCxl pkt r
      .ok (r', m)
    else .ok (r, m)
  else if inCxlMem pkt.addr then
    if p = .slave ∧ r.cxlPacketType ≠ .hostBiasCheck then do
      let r' ← hostToCxl pkt r
      .ok (r', m)
    else .ok (r, m)
  else if inHostMem pkt.addr then
    if p = .slave then do
      let r' ← hostToHost pkt r
      .ok (r', getMasterPort d 0x15000000)
    else .ok (r, m)
  else .ok (r, m)

/-- The part for coherence checks: from a device they go to the host's side; on
the upstream port they come back unanswered by any host cache and get their
answer here. mirrors PciBridge.cc:1187-1212 -/
def convertCheck (d : Decoder) (p : SlavePort) (pkt : Packet) (r : Request) (m : MasterPort) :
    Except Fault (Request × MasterPort) :=
  if r.cxlPacketType = .hostBiasCheck then
    if p ≠ .slave then do
      let c ← deref r.cxlCache
      if inCxlMem c.getAddr then .ok (r, getMasterPort d 0xa0000000)
      else .error (.panic "incorrect CXL Req\n")
    else do
      let r' ← HomeAgent.checkCoherenceTiming pkt r
      .ok (r', m)
  else .ok (r, m)

/-- Everything `recvTimingReq` does to the request before it looks at the
queues: the new request, and the master port it is meant for. -/
def buildMessage (d : Decoder) (p : SlavePort) (pkt : Packet) (r : Request) :
    Except Fault (Request × MasterPort) := do
  let (r', m) ← convertHostAccess d p pkt r
  convertCheck d p pkt r' m

variable (b : Bridge)

/-- The queue tests: refuse the packet, or put it on the list of `m`.
mirrors PciBridge.cc:1214-1257 -/
def tryAccept (p : SlavePort) (m : MasterPort) (pkt : Packet) :
    Bridge × Option MasterPort :=
  let s := b.slave p
  if (b.master m).length = b.reqQueueLimit then (b.setSlave p { s with retryReq := true }, none)
  else if pkt.needsResponse then
    if s.outstandingResponses = b.respQueueLimit then
      (b.setSlave p { s with retryReq := true }, none)
    else
      ((b.setSlave p { s with outstandingResponses := s.outstandingResponses + 1 }).setMaster m
        (b.master m ++ [pkt]), some m)
  else (b.setMaster m (b.master m ++ [pkt]), some m)

/-- `PciBridgeSlavePort::recvTimingReq`. `none` is the return value `false`;
where the source returns `true`, the master port that has taken the packet is
returned. mirrors PciBridge.cc:1042-1258 -/
def recvTimingReq (p : SlavePort) (pkt : Packet) :
    Except Fault (Bridge × Option MasterPort) :=
  let r := { b.req pkt.req with pciBridgeSlaveID := p }
  if pkt.cacheResponding then
    .error (.panic "Should not see packets where cache is responding")
  else if (b.slave p).retryReq then .ok (b.setReq pkt.req r, none)
  else do
    let (r', m) ← buildMessage b.decoder p pkt r
    .ok (tryAccept (b.setReq pkt.req r') p m pkt)

/-! ## Sending requests -/

/-- The types that `trySendTiming` enters in `routeTo`. -/
def ordinary (t : CXLPacketType) : Bool :=
  t ≠ .hostBiasCheck && t ≠ .cxlCacheH2DReq && t ≠ .cxlCacheH2DResp

/-- `retryStalledReq` on all four slave ports. mirrors PciBridge.cc:1260-1268 -/
def retryStalledReqs : Bridge :=
  { b with slave := fun p => { b.slave p with retryReq := false } }

/-- `PciBridgeMasterPort::trySendTiming`; `answer` is the peer's: refused, or
taken, with the request as the peer has left it. The bridge's own entry of
`pciBridgeSlaveIDs` is not the peer's to change. mirrors PciBridge.cc:1301-1349 -/
def trySendReq (m : MasterPort) (answer : Option Request) : Except Fault Bridge :=
  match b.master m, answer with
  | [], _ => .error (.assertion .transmitListNonempty)
  | _ :: _, none => .ok b
  | pkt :: rest, some r =>
    let slaveID := (b.req pkt.req).pciBridgeSlaveID
    if (b.routeTo pkt.req).isSome then .error (.assertion .routeToAbsent)
    else
      let b := b.setReq pkt.req { r with pciBridgeSlaveID := slaveID }
      let b := if ordinary r.cxlPacketType then b.setRoute pkt.req (some slaveID) else b
      .ok (retryStalledReqs (b.setMaster m rest))

/-! ## Responses -/

/-- The slave port for a response. mirrors PciBridge.cc:976-1015 -/
def respPort (q : ReqId) (t : CXLPacketType) : Except Fault SlavePort :=
  match t with
  | .hostBiasCheck => .ok .dma2
  | .cxlCacheH2DResp => .ok .slave
  | _ =>
    match b.routeTo q with
    | some p => .ok p
    | none => .error .endIterator

/-- What the home agent makes of a response. mirrors PciBridge.cc:1003-1020 -/
def respMessage (pkt : Packet) (r : Request) : Except Fault Request :=
  match r.cxlPacketType with
  | .hostBiasCheck => do
    let r' ← HomeAgent.checkCoherenceTiming pkt r
    HomeAgent.reciveCXL pkt r'
  | .cxlCacheH2DResp => .ok r
  | .defaultPacket => .ok r
  | _ => HomeAgent.reciveCXL pkt r

/-- The types whose response leaves `routeTo` alone. -/
def fixedPort (t : CXLPacketType) : Bool := t = .hostBiasCheck || t = .cxlCacheH2DResp

/-- `PciBridgeMasterPort::recvTimingResp`, the same for every master port.
mirrors PciBridge.cc:948-1040 -/
def recvTimingResp (pkt : Packet) : Except Fault Bridge := do
  let r := b.req pkt.req
  let p ← respPort b pkt.req r.cxlPacketType
  let r' ← respMessage pkt r
  let s := b.slave p
  let b' := (b.setReq pkt.req r').setSlave p { s with transmitList := s.transmitList ++ [pkt] }
  if fixedPort r'.cxlPacketType then .ok b'
  else if (b.routeTo pkt.req).isSome then .ok (b'.setRoute pkt.req none)
  else .error .endIterator

/-- `PciBridgeSlavePort::trySendTiming`; `taken` is the peer's answer.
mirrors PciBridge.cc:1372-1417 -/
def trySendResp (p : SlavePort) (taken : Bool) : Except Fault Bridge :=
  match (b.slave p).transmitList, taken with
  | [], _ => .error (.assertion .transmitListNonempty)
  | _ :: _, false => .ok b
  | _ :: rest, true =>
    if (b.slave p).outstandingResponses = 0 then .error (.assertion .outstandingNonzero)
    else .ok (b.setSlave p {
      outstandingResponses := (b.slave p).outstandingResponses - 1
      retryReq := false
      transmitList := rest })

/-! ## What a call does to the bridge -/

variable {pkt : Packet} {r r' : Request} {p : SlavePort} {m : MasterPort} {b b' : Bridge}
  {e : Fault} {taken : Bool}
  {t : CXLPacketType} {d : Decoder} {answer : Option Request}

theorem convertHostAccess_slaveID :
    Yields (fun a => a.1.pciBridgeSlaveID = r.pciBridgeSlaveID) (convertHostAccess d p pkt r) := by
  have hcxl : Yields (fun r' => r'.pciBridgeSlaveID = r.pciBridgeSlaveID) (hostToCxl pkt r) := by
    unfold hostToCxl
    split
    · rename_i r1 hr1
      exact yields_ok.2 (makeCXLPacket_slaveID hr1)
    · exact yields_error
  have hhost : Yields (fun r' => r'.pciBridgeSlaveID = r.pciBridgeSlaveID) (hostToHost pkt r) := by
    unfold hostToHost
    split
    · exact fun r' => makeCXLSnpReq_slaveID
    · exact yields_error
  simp [convertHostAccess, hcxl, hhost]

theorem convertCheck_slaveID :
    Yields (fun a => a.1.pciBridgeSlaveID = r.pciBridgeSlaveID) (convertCheck d p pkt r m) := by
  have hcheck : Yields (fun r' => r'.pciBridgeSlaveID = r.pciBridgeSlaveID) (checkCoherenceTiming pkt r) := by
    intro r' h
    obtain ⟨op, -, rfl⟩ := checkCoherenceTiming_ok h
    rfl
  simp [convertCheck, hcheck]

theorem buildMessage_slaveID :
    Yields (fun a => a.1.pciBridgeSlaveID = r.pciBridgeSlaveID) (buildMessage d p pkt r) := by
  rw [buildMessage, yields_bind]
  exact convertHostAccess_slaveID.imp fun a h => convertCheck_slaveID.imp fun a' h' => h'.trans h

/-- The bridge after port `p` has refused a packet of the request `q`. -/
def refused (b : Bridge) (p : SlavePort) (q : ReqId) (r : Request) : Bridge :=
  (b.setReq q r).setSlave p { b.slave p with retryReq := true }

/-- The bridge after port `p` has accepted `pkt` for master port `m`. -/
def accepted (b : Bridge) (p : SlavePort) (m : MasterPort) (pkt : Packet) (r : Request) : Bridge :=
  ((b.setReq pkt.req r).setSlave p { b.slave p with
    outstandingResponses :=
      (b.slave p).outstandingResponses + if pkt.needsResponse then 1 else 0 }).setMaster m
    (b.master m ++ [pkt])

theorem tryAccept_eq (b : Bridge) (p : SlavePort) (m : MasterPort) (pkt : Packet) (r : Request) :
    tryAccept (b.setReq pkt.req r) p m pkt =
      if (b.master m).length = b.reqQueueLimit ∨
          (pkt.needsResponse = true ∧ (b.slave p).outstandingResponses = b.respQueueLimit)
      then (refused b p pkt.req r, none) else (accepted b p m pkt r, some m) := by
  unfold tryAccept refused accepted
  by_cases hq : (b.master m).length = b.reqQueueLimit
  · simp [Bridge.setReq, hq]
  · by_cases hn : pkt.needsResponse = true
    · by_cases ho : (b.slave p).outstandingResponses = b.respQueueLimit
      · simp [Bridge.setReq, hq, hn, ho]
      · simp [Bridge.setReq, Bridge.setMaster, Bridge.setSlave, hq, hn, ho]
    · simp [Bridge.setReq, Bridge.setMaster, Bridge.setSlave, hq, hn]

/-- A completed `recvTimingReq` has refused or accepted the packet, and written
its own id into the request either way. -/
theorem recvTimingReq_ok {o : Option MasterPort} (h : recvTimingReq b p pkt = .ok (b', o)) :
    ∃ r : Request, r.pciBridgeSlaveID = p ∧
      ((o = none ∧ b' = refused b p pkt.req r) ∨
       ∃ m, o = some m ∧ (pkt.needsResponse = true →
          (b.slave p).outstandingResponses ≠ b.respQueueLimit) ∧ b' = accepted b p m pkt r) := by
  unfold recvTimingReq at h
  split at h
  · cases h
  · split at h
    · rename_i hretry
      cases h
      have hslave : b.slave p = { b.slave p with retryReq := true } := by
        rw [← hretry]
      refine ⟨{ b.req pkt.req with pciBridgeSlaveID := p }, rfl, .inl ⟨rfl, ?_⟩⟩
      unfold refused Bridge.setSlave
      rw [← hslave]
      simp [Bridge.setReq]
    · obtain ⟨⟨r, m⟩, hb, h⟩ := bind_eq_ok.mp h
      have hid : r.pciBridgeSlaveID = p := buildMessage_slaveID _ hb
      simp only [tryAccept_eq, Except.ok.injEq] at h
      split at h
      · cases h
        exact ⟨r, hid, .inl ⟨rfl, rfl⟩⟩
      · rename_i hroom
        cases h
        exact ⟨r, hid, .inr ⟨m, rfl, fun hn ho => hroom (.inr ⟨hn, ho⟩), rfl⟩⟩

/-- The bridge after master port `m` has sent the head of its list; the peer
left the request as `r`. -/
def sent (b : Bridge) (m : MasterPort) (pkt : Packet) (rest : List Packet) (r : Request) : Bridge :=
  let slaveID := (b.req pkt.req).pciBridgeSlaveID
  { b with
    req := update b.req pkt.req { r with pciBridgeSlaveID := slaveID }
    routeTo := if ordinary r.cxlPacketType then update b.routeTo pkt.req (some slaveID)
      else b.routeTo
    master := update b.master m rest
    slave := fun p => { b.slave p with retryReq := false } }

theorem trySendReq_ok (h : trySendReq b m answer = .ok b') :
    ∃ pkt rest, b.master m = pkt :: rest ∧
      ((answer = none ∧ b' = b) ∨
       ∃ r, answer = some r ∧ b.routeTo pkt.req = none ∧ b' = sent b m pkt rest r) := by
  unfold trySendReq at h
  split at h
  · cases h
  · rename_i pkt rest hm
    cases h
    exact ⟨pkt, rest, hm, .inl ⟨rfl, rfl⟩⟩
  · rename_i pkt rest r hm
    split at h
    · cases h
    · rename_i hroute
      cases h
      refine ⟨pkt, rest, hm, .inr ⟨r, rfl, by simpa using hroute, ?_⟩⟩
      unfold sent
      split <;> rfl

theorem respMessage_slaveID (h : respMessage pkt r = .ok r') :
    r'.pciBridgeSlaveID = r.pciBridgeSlaveID := by
  unfold respMessage at h
  split at h
  · obtain ⟨r1, h1, h⟩ := bind_eq_ok.mp h
    obtain ⟨op, -, rfl⟩ := checkCoherenceTiming_ok h1
    exact (reciveCXL_ok h).1
  · cases h; rfl
  · cases h; rfl
  · exact (reciveCXL_ok h).1

theorem fixedPort_eq_false (hhbc : t ≠ .hostBiasCheck) (hh2d : t ≠ .cxlCacheH2DResp) :
    fixedPort t = false := by
  simp only [fixedPort, Bool.or_eq_false_iff, decide_eq_false_iff_not]
  exact ⟨hhbc, hh2d⟩

/-- What the home agent makes of a response leaves `routeTo` alone if the
response itself does; a check that brings data along is the exception. -/
theorem respMessage_fixedPort (h : respMessage pkt r = .ok r')
    (hd : r.cxlPacketType = .hostBiasCheck → r.cxlDataAtomic2 = none) :
    fixedPort r'.cxlPacketType = fixedPort r.cxlPacketType := by
  unfold respMessage at h
  split at h
  · rename_i hty
    obtain ⟨r1, h1, h⟩ := bind_eq_ok.mp h
    obtain ⟨op, -, rfl⟩ := checkCoherenceTiming_ok h1
    rw [reciveCXL_none rfl (by simpa [forwarded] using hd hty)] at h
    cases h
    rw [hty]
    rfl
  · cases h; rfl
  · cases h; rfl
  · rename_i hhbc hh2d hdef
    have hr : fixedPort r.cxlPacketType = false := fixedPort_eq_false hhbc hh2d
    rcases (reciveCXL_ok h).2 with hty | hty | hty
    · rw [hty]
    · rw [hty, hr]; rfl
    · rw [hty, hr]; rfl

/-- The bridge after a response has been queued on port `p`. -/
def queued (b : Bridge) (p : SlavePort) (pkt : Packet) (r : Request) : Bridge :=
  { b with
    req := update b.req pkt.req r
    routeTo := if fixedPort r.cxlPacketType then b.routeTo
      else update b.routeTo pkt.req none
    slave := update b.slave p
      { b.slave p with transmitList := (b.slave p).transmitList ++ [pkt] } }

theorem recvTimingResp_ok (h : recvTimingResp b pkt = .ok b') :
    ∃ p r, respPort b pkt.req (b.req pkt.req).cxlPacketType = .ok p ∧
      respMessage pkt (b.req pkt.req) = .ok r ∧ b' = queued b p pkt r := by
  obtain ⟨p, hp, h⟩ := bind_eq_ok.mp h
  obtain ⟨r, hr, h⟩ := bind_eq_ok.mp h
  refine ⟨p, r, hp, hr, ?_⟩
  unfold queued
  split at h
  · rename_i hf
    cases h
    simp [hf, Bridge.setReq, Bridge.setSlave]
  · rename_i hf
    split at h
    · cases h
      simp [hf, Bridge.setReq, Bridge.setSlave, Bridge.setRoute]
    · cases h

/-- The bridge after port `p` has sent the head of its responses. -/
def released (b : Bridge) (p : SlavePort) (rest : List Packet) : Bridge :=
  b.setSlave p {
    outstandingResponses := (b.slave p).outstandingResponses - 1
    retryReq := false
    transmitList := rest }

theorem trySendResp_ok (h : trySendResp b p taken = .ok b') :
    ∃ pkt rest, (b.slave p).transmitList = pkt :: rest ∧
      ((taken = false ∧ b' = b) ∨ (taken = true ∧ b' = released b p rest)) := by
  unfold trySendResp at h
  split at h
  · cases h
  · rename_i pkt rest hl
    cases h
    exact ⟨pkt, rest, hl, .inl ⟨rfl, rfl⟩⟩
  · rename_i pkt rest hl
    split at h
    · cases h
    · cases h
      exact ⟨pkt, rest, hl, .inr ⟨rfl, rfl⟩⟩

/-- Sending a response fails only when there is none, or when the port counts
no slot for it. -/
theorem trySendResp_error (h : trySendResp b p taken = .error e) :
    (b.slave p).transmitList = [] ∨ (b.slave p).outstandingResponses = 0 := by
  unfold trySendResp at h
  split at h
  · rename_i hl
    exact .inl hl
  · cases h
  · split at h
    · rename_i ho
      exact .inr ho
    · cases h

/-! ## The lists and counters after a call -/

section Fields

variable (b : Bridge) (p p' : SlavePort) (m m' : MasterPort) (pkt : Packet) (rest : List Packet)
  (q : ReqId) (r : Request)

@[simp] theorem refused_transmitList :
    ((refused b p q r).slave p').transmitList = (b.slave p').transmitList := by
  by_cases h : p' = p
  · subst h; simp [refused, Bridge.setSlave, Bridge.setReq]
  · simp [refused, Bridge.setSlave, Bridge.setReq, h]

@[simp] theorem refused_outstanding :
    ((refused b p q r).slave p').outstandingResponses = (b.slave p').outstandingResponses := by
  by_cases h : p' = p
  · subst h; simp [refused, Bridge.setSlave, Bridge.setReq]
  · simp [refused, Bridge.setSlave, Bridge.setReq, h]

@[simp] theorem accepted_transmitList :
    ((accepted b p m pkt r).slave p').transmitList = (b.slave p').transmitList := by
  by_cases h : p' = p
  · subst h; simp [accepted, Bridge.setSlave, Bridge.setReq, Bridge.setMaster]
  · simp [accepted, Bridge.setSlave, Bridge.setReq, Bridge.setMaster, h]

theorem accepted_outstanding :
    ((accepted b p m pkt r).slave p').outstandingResponses = (b.slave p').outstandingResponses +
      if p = p' ∧ pkt.needsResponse = true then 1 else 0 := by
  by_cases h : p' = p
  · subst h; simp [accepted, Bridge.setSlave, Bridge.setReq, Bridge.setMaster]
  · simp [accepted, Bridge.setSlave, Bridge.setReq, Bridge.setMaster, h, Ne.symm h]

theorem accepted_master :
    (accepted b p m pkt r).master m' = if m' = m then b.master m ++ [pkt] else b.master m' := by
  simp [accepted, Bridge.setSlave, Bridge.setReq, Bridge.setMaster, update_apply]

theorem queued_transmitList :
    ((queued b p pkt r).slave p').transmitList =
      if p' = p then (b.slave p).transmitList ++ [pkt] else (b.slave p').transmitList := by
  by_cases h : p' = p
  · subst h; simp [queued]
  · simp [queued, h]

@[simp] theorem queued_outstanding :
    ((queued b p pkt r).slave p').outstandingResponses = (b.slave p').outstandingResponses := by
  by_cases h : p' = p
  · subst h; simp [queued]
  · simp [queued, h]

theorem released_transmitList :
    ((released b p rest).slave p').transmitList =
      if p' = p then rest else (b.slave p').transmitList := by
  by_cases h : p' = p
  · subst h; simp [released, Bridge.setSlave]
  · simp [released, Bridge.setSlave, h]

theorem released_outstanding :
    ((released b p rest).slave p').outstandingResponses =
      (b.slave p').outstandingResponses - if p = p' then 1 else 0 := by
  by_cases h : p' = p
  · subst h; simp [released, Bridge.setSlave]
  · simp [released, Bridge.setSlave, h, Ne.symm h]

end Fields

/-! ## Faults

The faults of a call split into those of the messages (a panic, a null or wrong
message) and those of the bridge's own lists and tables. -/

/-- A failed assertion of the bridge, or an iterator at the end of `routeTo`. -/
def Bookkeeping (e : Fault) : Prop := e = .endIterator ∨ ∃ a, e = .assertion a

@[simp] theorem avoids_deref {α : Type} (x : Option α) : Avoids Bookkeeping (deref x) := by
  cases x <;> simp [deref, Bookkeeping]

@[simp] theorem avoids_d2hOpcode (c : CxlCache) : Avoids Bookkeeping c.d2hOpcode := by
  unfold CxlCache.d2hOpcode
  split <;> simp [Bookkeeping]

@[simp] theorem avoids_checkCoherenceTiming (pkt : Packet) (r : Request) :
    Avoids Bookkeeping (checkCoherenceTiming pkt r) := by
  refine (avoids_deref _).bind fun c _ => ?_
  split
  · refine (avoids_d2hOpcode c).bind fun op _ => ?_
    split <;> simp [Bookkeeping]
  · simp [Bookkeeping]

@[simp] theorem avoids_hostToCxl (pkt : Packet) (r : Request) :
    Avoids Bookkeeping (hostToCxl pkt r) := by
  unfold hostToCxl
  split <;> simp [Bookkeeping]

@[simp] theorem avoids_hostToHost (pkt : Packet) (r : Request) :
    Avoids Bookkeeping (hostToHost pkt r) := by
  unfold hostToHost makeCXLSnpReq
  split
  · split <;> simp [Bookkeeping]
  · simp [Bookkeeping]

@[simp] theorem avoids_convertHostAccess (d : Decoder) (p : SlavePort) (pkt : Packet)
    (r : Request) :
    Avoids Bookkeeping (convertHostAccess d p pkt r) := by
  simp [convertHostAccess]

@[simp] theorem avoids_convertCheck (d : Decoder) (p : SlavePort) (pkt : Packet) (r : Request)
    (m : MasterPort) : Avoids Bookkeeping (convertCheck d p pkt r m) := by
  simp [convertCheck, Bookkeeping]

/-- Accepting or refusing a packet never trips the bridge's own bookkeeping. -/
theorem avoids_recvTimingReq (b : Bridge) (p : SlavePort) (pkt : Packet) :
    Avoids Bookkeeping (recvTimingReq b p pkt) := by
  simp [recvTimingReq, buildMessage, Bookkeeping]

@[simp] theorem avoids_reciveCXL (pkt : Packet) (r : Request) :
    Avoids Bookkeeping (reciveCXL pkt r) := by
  have hresp : ∀ c, Avoids Bookkeeping (makeCXLResp pkt c r) := by
    intro c
    simp only [makeCXLResp, avoids_ite, avoids_error, avoids_bind, avoids_d2hOpcode]
    refine ⟨fun _ op _ => ?_, fun _ => by simp [Bookkeeping]⟩
    split <;> simp
  unfold reciveCXL
  split
  · simp [hresp]
  · split <;> simp

theorem avoids_respMessage (pkt : Packet) (r : Request) :
    Avoids Bookkeeping (respMessage pkt r) := by
  unfold respMessage
  split <;> simp

/-- A send trips the bookkeeping only on an empty list or a request that is in
`routeTo` already. -/
theorem trySendReq_error (h : trySendReq b m answer = .error e) :
    (b.master m = [] ∧ e = .assertion .transmitListNonempty) ∨
      ∃ pkt rest, b.master m = pkt :: rest ∧ (b.routeTo pkt.req).isSome = true ∧
        e = .assertion .routeToAbsent := by
  unfold trySendReq at h
  split at h
  · rename_i hm
    cases h
    exact .inl ⟨hm, rfl⟩
  · cases h
  · rename_i pkt rest r hm
    split at h
    · rename_i hroute
      cases h
      exact .inr ⟨pkt, rest, hm, hroute, rfl⟩
    · cases h

theorem respPort_error {q : ReqId} (h : respPort b q t = .error e) :
    e = .endIterator ∧ b.routeTo q = none ∧ fixedPort t = false := by
  unfold respPort at h
  split at h
  · cases h
  · cases h
  · rename_i hhbc hh2d
    split at h
    · cases h
    · rename_i hr
      cases h
      exact ⟨rfl, hr, fixedPort_eq_false hhbc hh2d⟩

/-- A response trips the bookkeeping only at the end of `routeTo`, and only when
it needs `routeTo`. -/
theorem recvTimingResp_fault (h : recvTimingResp b pkt = .error e) (he : Bookkeeping e) :
    e = .endIterator ∧ b.routeTo pkt.req = none ∧
      (fixedPort (b.req pkt.req).cxlPacketType = false ∨
        ∃ r, respMessage pkt (b.req pkt.req) = .ok r ∧ fixedPort r.cxlPacketType = false) := by
  simp only [recvTimingResp] at h
  cases hp : respPort b pkt.req (b.req pkt.req).cxlPacketType with
  | error e' =>
    rw [hp] at h
    cases h
    obtain ⟨rfl, hr, hf⟩ := respPort_error hp
    exact ⟨rfl, hr, .inl hf⟩
  | ok p =>
    rw [hp, ok_bind] at h
    cases hr : respMessage pkt (b.req pkt.req) with
    | error e' =>
      rw [hr] at h
      cases h
      exact absurd he (avoids_respMessage pkt _ _ hr)
    | ok r =>
      rw [hr, ok_bind] at h
      split at h
      · cases h
      · rename_i hf
        split at h
        · cases h
        · rename_i hroute
          cases h
          exact ⟨rfl, by simpa using hroute, .inr ⟨r, rfl, by simpa using hf⟩⟩

end Gem5Cxl.L2.PciBridge
