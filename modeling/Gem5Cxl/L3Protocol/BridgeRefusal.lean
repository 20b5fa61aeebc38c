import Gem5Cxl.L2Machine.BridgeMessage

/-!
# Refusals of the PCI bridge

A port that refuses a packet is offered the same packet again later. So a
refusal should leave no trace but the port's `retryReq`, and the packet offered
again, once there is room, should be forwarded as it would have been at first.

But `recvTimingReq` looks at its queues last. By then it has turned the packet
into a CXL message, and for a coherence check on the upstream port it has even
dropped the request the message is made from.

* `Transparent`: what a refusal should be.
* `transparent_iff`: for every refusal, when it is that. A refusal because
  `retryReq` was set leaves the packet alone, so what matters is that it can be
  processed at all (`Processable`). A refusal by a full queue is transparent on
  the DMA ports; on the upstream port it is only for packets that the bridge
  has nothing to do with, or that already carry their message (`Settled`).
* `check_refused`: a coherence check that is refused once crashes when retried.
-/
namespace Gem5Cxl.L3.BridgeRefusal

open Core L1 L2 L2.ConfigSpace L2.PciBridge Bridge

/-- The device request behind a coherence check can be answered. -/
def Checkable (r : Request) : Prop :=
  ∃ op a last, r.cxlCache = some ⟨.d2hReq, last, .d2hReq op a⟩ ∧ HomeAgent.memFwdOf op ≠ none

/-! ## What a refusal should be -/

/-- The fields of a request that make up its CXL message. -/
def SameMessage (r r' : Request) : Prop :=
  r.cxlPacketType = r'.cxlPacketType ∧ r.cxlReq = r'.cxlReq ∧ r.cxlCache = r'.cxlCache

/-- Port `p` can accept any packet. -/
structure Room (b : Bridge) (p : SlavePort) : Prop where
  notRetrying : (b.slave p).retryReq = false
  reqQueue : ∀ m, (b.master m).length ≠ b.reqQueueLimit
  respQueue : (b.slave p).outstandingResponses ≠ b.respQueueLimit

/-- Whenever port `p` of a bridge configured as `d` has room, it takes `pkt`, its
request being `r`, and forwards it by master port `m` with the request as `r'`. -/
def Forwards (d : Decoder) (p : SlavePort) (pkt : Packet) (r : Request) (m : MasterPort)
    (r' : Request) : Prop :=
  ∀ b : Bridge, b.decoder = d → b.req pkt.req = r → Room b p →
    ∃ b', recvTimingReq b p pkt = .ok (b', some m) ∧ b'.req pkt.req = r'

/-- The refusal that took `b` to `b'` left no trace but `retryReq`, and the
packet offered again goes the way it would have gone at first. -/
structure Transparent (b b' : Bridge) (p : SlavePort) (pkt : Packet) : Prop where
  message : SameMessage (b'.req pkt.req) (b.req pkt.req)
  others : ∀ q, q ≠ pkt.req → b'.req q = b.req q
  slaves : ∀ p', b'.slave p' = if p' = p then { b.slave p with retryReq := true } else b.slave p'
  state : b'.decoder = b.decoder ∧ b'.master = b.master ∧ b'.routeTo = b.routeTo ∧
    b'.reqQueueLimit = b.reqQueueLimit ∧ b'.respQueueLimit = b.respQueueLimit
  retry : ∃ m r, Forwards b.decoder p pkt (b.req pkt.req) m r ∧
    Forwards b.decoder p pkt (b'.req pkt.req) m r

/-! ## When a refusal is transparent -/

/-- The bridge can process the packet at all: it does not panic on it and finds
the messages it needs. -/
def Processable (p : SlavePort) (pkt : Packet) (r : Request) : Prop :=
  if p = .slave then
    (toCxl pkt.addr r.cxlPacketType → hostMessage pkt.addr pkt.cmd ≠ none) ∧
    (inHostMem pkt.addr = true →
      r.cxlPacketType = .cxlCacheH2DReq ∧ snoopMessage pkt.addr pkt.cmd ≠ none) ∧
    (¬ toCxl pkt.addr r.cxlPacketType → inHostMem pkt.addr = false →
      r.cxlPacketType = .hostBiasCheck → Checkable r)
  else r.cxlPacketType = .hostBiasCheck → ∃ c, r.cxlCache = some c ∧ inCxlMem c.getAddr = true

/-- The packet is one the bridge leaves alone, or has its message already. -/
def Settled (p : SlavePort) (pkt : Packet) (r : Request) : Prop :=
  if p = .slave then
    (toCxl pkt.addr r.cxlPacketType →
      r.cxlPacketType = .cxlMemPacket ∧ r.cxlReq = hostMessage pkt.addr pkt.cmd) ∧
    (inHostMem pkt.addr = true → r.cxlCache = snoopMessage pkt.addr pkt.cmd) ∧
    (¬ toCxl pkt.addr r.cxlPacketType → inHostMem pkt.addr = false →
      r.cxlPacketType ≠ .hostBiasCheck)
  else True

variable {r r' : Request} {p : SlavePort} {pkt : Packet} {b : Bridge} {d : Decoder} {m : MasterPort}

theorem checkable_iff (pkt : Packet) :
    Checkable r ↔ ∃ r', HomeAgent.checkCoherenceTiming pkt r = .ok r' := by
  constructor
  · rintro ⟨op, a, last, hc, hf⟩
    obtain ⟨⟨opcode, v⟩, hv⟩ := Option.ne_none_iff_exists'.mp hf
    exact ⟨_, checkCoherenceTiming_iff.mpr ⟨op, a, last, opcode, v, hc, hv, rfl⟩⟩
  · rintro ⟨r', h⟩
    obtain ⟨op, a, last, opcode, v, hc, hv, -⟩ := checkCoherenceTiming_iff.mp h
    exact ⟨op, a, last, hc, by rw [hv]; simp⟩

theorem processable_iff (d : Decoder) (p : SlavePort) (pkt : Packet) (r : Request) :
    Processable p pkt r ↔ ∃ r' m, buildMessage d p pkt r = .ok (r', m) := by
  unfold Processable
  by_cases hp : p = .slave
  · subst hp
    by_cases hz : toCxl pkt.addr r.cxlPacketType
    · simp only [buildMessage_toCxl hz, not_host_of_toCxl hz]
      simp [hz, Option.ne_none_iff_exists']
    · by_cases hh : inHostMem pkt.addr = true
      · simp only [buildMessage_host hh]
        simp [hz, hh, Option.ne_none_iff_exists']
      · rw [Bool.not_eq_true] at hh
        simp only [buildMessage_other hz hh]
        by_cases ht : r.cxlPacketType = .hostBiasCheck
        · have hz' : ¬ toCxl pkt.addr .hostBiasCheck := ht ▸ hz
          simp [hz', hh, ht, checkable_iff pkt]
        · simp [hz, hh, ht]
  · rw [if_neg hp]
    simp only [buildMessage_dma hp]
    by_cases ht : r.cxlPacketType = .hostBiasCheck
    · simp [ht]
    · simp [ht]

/-- A packet the bridge has nothing to do with, or has done it already, is
forwarded as it is; any other gets a new message. -/
theorem settled_iff (h : buildMessage d p pkt r = .ok (r', m)) :
    Settled p pkt r ↔ SameMessage r' r := by
  unfold Settled SameMessage
  by_cases hp : p = .slave
  · subst hp
    by_cases hz : toCxl pkt.addr r.cxlPacketType
    · obtain ⟨-, c, hc, rfl⟩ := (buildMessage_toCxl hz).mp h
      simp [hz, not_host_of_toCxl hz, hc, eq_comm]
    · by_cases hh : inHostMem pkt.addr = true
      · obtain ⟨ht, -, c, hc, rfl⟩ := (buildMessage_host hh).mp h
        have hz' : ¬ toCxl pkt.addr .cxlCacheH2DReq := ht ▸ hz
        simp [hz', hh, hc, ht, eq_comm]
      · rw [Bool.not_eq_true] at hh
        obtain ⟨-, h⟩ := (buildMessage_other hz hh).mp h
        by_cases ht : r.cxlPacketType = .hostBiasCheck
        · -- the device's request was there, and is dropped
          rw [if_pos ht] at h
          obtain ⟨op, a, last, opcode, v, hc, -, rfl⟩ := checkCoherenceTiming_iff.mp h
          have hz' : ¬ toCxl pkt.addr .hostBiasCheck := ht ▸ hz
          simp [hz', hh, ht, hc, HomeAgent.forwarded]
        · rw [if_neg ht] at h
          subst h
          simp [hz, hh, ht]
  · rw [if_neg hp]
    obtain ⟨rfl, -⟩ := (buildMessage_dma hp).mp h
    simp

theorem buildMessage_again (h : buildMessage d p pkt r = .ok (r', m)) (hs : SameMessage r' r) :
    r' = r := by
  obtain ⟨h1, h2, h3⟩ := hs
  by_cases hp : p = .slave
  · subst hp
    by_cases hz : toCxl pkt.addr r.cxlPacketType
    · obtain ⟨-, c, -, rfl⟩ := (buildMessage_toCxl hz).mp h
      simp only at h1 h2
      rw [h1, h2]
    · by_cases hh : inHostMem pkt.addr = true
      · obtain ⟨-, -, c, -, rfl⟩ := (buildMessage_host hh).mp h
        simp only at h1 h3
        rw [h1, h3]
      · rw [Bool.not_eq_true] at hh
        obtain ⟨-, h⟩ := (buildMessage_other hz hh).mp h
        by_cases ht : r.cxlPacketType = .hostBiasCheck
        · rw [if_pos ht] at h
          obtain ⟨op, a, last, opcode, v, hc, -, rfl⟩ := checkCoherenceTiming_iff.mp h
          rw [hc] at h3
          cases h3
        · rw [if_neg ht] at h
          exact h
  · exact ((buildMessage_dma hp).mp h).1

/-! ## Refusals -/

theorem forwards_iff (hc : pkt.cacheResponding = false) :
    Forwards d p pkt r m r' ↔
      buildMessage d p pkt { r with pciBridgeSlaveID := p } = .ok (r', m) := by
  constructor
  · intro hf
    -- an empty bridge has room
    obtain ⟨b', hb, hr⟩ := hf
      { decoder := d, reqQueueLimit := 1, respQueueLimit := 1, req := fun _ => r } rfl rfl
      ⟨rfl, by simp, by simp⟩
    simp only [recvTimingReq, hc, Bool.false_eq_true, if_false] at hb
    obtain ⟨⟨r1, m1⟩, h1, hb⟩ := bind_eq_ok.mp hb
    simp only [tryAccept_eq, Except.ok.injEq] at hb
    split at hb
    · cases hb
    · cases hb
      rw [h1, ← hr]
      simp [accepted, setReq, setSlave, setMaster]
  · intro h b hd hr hroom
    have hbuild : buildMessage b.decoder p pkt { b.req pkt.req with pciBridgeSlaveID := p } =
        .ok (r', m) := by rw [hd, hr, h]
    refine ⟨accepted b p m pkt r', ?_, by simp [accepted, setReq, setSlave, setMaster]⟩
    simp only [recvTimingReq, hc, hroom.notRetrying, Bool.false_eq_true, if_false, hbuild, ok_bind,
      tryAccept_eq]
    rw [if_neg]
    rintro (hq | ⟨-, ho⟩)
    · exact hroom.reqQueue m hq
    · exact hroom.respQueue ho

/-- A refused call has left the request alone, or has built the message. -/
theorem recvTimingReq_refused {b' : Bridge} (h : recvTimingReq b p pkt = .ok (b', none)) :
    pkt.cacheResponding = false ∧ ∃ r', b' = refused b p pkt.req r' ∧
      if (b.slave p).retryReq = true then r' = { b.req pkt.req with pciBridgeSlaveID := p }
      else ∃ m, buildMessage b.decoder p pkt { b.req pkt.req with pciBridgeSlaveID := p } =
        .ok (r', m) := by
  simp only [recvTimingReq] at h
  split at h
  · cases h
  · rename_i hc
    refine ⟨by simpa using hc, ?_⟩
    split at h
    · rename_i hretry
      cases h
      refine ⟨_, ?_, by rw [if_pos hretry]⟩
      have hslave : { b.slave p with retryReq := true } = b.slave p := by rw [← hretry]
      rw [refused, hslave]
      simp [setReq, setSlave]
    · rename_i hretry
      obtain ⟨⟨r', m⟩, hb, h⟩ := bind_eq_ok.mp h
      simp only [tryAccept_eq, Except.ok.injEq] at h
      split at h
      · cases h
        exact ⟨r', rfl, by rw [if_neg hretry]; exact ⟨m, hb⟩⟩
      · cases h

/-- The bridge itself is never changed by a refusal: what is left to ask is what
happened to the request. -/
theorem transparent_refused (hc : pkt.cacheResponding = false) :
    Transparent b (refused b p pkt.req r') p pkt ↔
      SameMessage r' (b.req pkt.req) ∧ ∃ m r,
        buildMessage b.decoder p pkt { b.req pkt.req with pciBridgeSlaveID := p } = .ok (r, m) ∧
        buildMessage b.decoder p pkt { r' with pciBridgeSlaveID := p } = .ok (r, m) := by
  have hreq : (refused b p pkt.req r').req pkt.req = r' := by
    simp [refused, setReq, setSlave]
  constructor
  · intro ht
    obtain ⟨m, r, h1, h2⟩ := ht.retry
    rw [hreq] at h2
    refine ⟨hreq ▸ ht.message, m, r, (forwards_iff hc).mp h1, (forwards_iff hc).mp h2⟩
  · rintro ⟨hs, m, r, h1, h2⟩
    refine ⟨by rw [hreq]; exact hs, ?_, ?_, ⟨rfl, rfl, rfl, rfl, rfl⟩, m, r,
      (forwards_iff hc).mpr h1, by rw [hreq]; exact (forwards_iff hc).mpr h2⟩
    · intro q hq
      simp [refused, setReq, setSlave, hq]
    · simp [refused, setReq, setSlave, Function.update_apply]

/-- **Refusals.** Which refusals leave no trace: those because the port was
waiting to retry, of packets it can process; and those by a full queue, of
packets that are settled. -/
theorem transparent_iff {b b' : Bridge} {p : SlavePort} {pkt : Packet}
    (h : recvTimingReq b p pkt = .ok (b', none)) :
    Transparent b b' p pkt ↔
      if (b.slave p).retryReq = true then Processable p pkt (b.req pkt.req)
      else Settled p pkt (b.req pkt.req) := by
  obtain ⟨hc, r', rfl, hr'⟩ := recvTimingReq_refused h
  rw [transparent_refused hc]
  split at hr'
  · rename_i hretry
    subst hr'
    rw [if_pos hretry]
    have hproc := processable_iff b.decoder p pkt { b.req pkt.req with pciBridgeSlaveID := p }
    constructor
    · rintro ⟨-, m, r, h1, -⟩
      exact hproc.mpr ⟨r, m, h1⟩
    · intro hp
      obtain ⟨r, m, h1⟩ := hproc.mp hp
      exact ⟨⟨rfl, rfl, rfl⟩, m, r, h1, h1⟩
  · rename_i hretry
    obtain ⟨m, hb⟩ := hr'
    rw [if_neg hretry]
    have hset := settled_iff hb
    constructor
    · rintro ⟨hs, -⟩
      exact hset.mpr hs
    · intro hs
      obtain rfl := buildMessage_again hb (hset.mp hs)
      exact ⟨hset.mp hs, m, _, hb, hb⟩

/-- A bridge in front of the device whose lists of requests are full. -/
def full (req : ReqId → Request) : Bridge :=
  { decoder := withDevice .two, reqQueueLimit := 1, respQueueLimit := 1
    master := fun _ => [{ req := 0, cmd := .readReq, addr := 0 }], req }

/-- A device read of host memory is refused without a trace. -/
theorem transparent_iff_host_memory_read :
    ∃ b', recvTimingReq (full fun _ => { cxlPacketType := .cxlCachePacket }) .dma2
        { req := 1, cmd := .readSharedReq, addr := 0xA0000000 } = .ok (b', none) ∧
      Transparent (full fun _ => { cxlPacketType := .cxlCachePacket }) b' .dma2
        { req := 1, cmd := .readSharedReq, addr := 0xA0000000 } :=
  ⟨_, rfl, (transparent_iff rfl).mpr trivial⟩

/-- The request of a coherence check that no host cache has answered. -/
def checking (_ : ReqId) : Request :=
  { cxlPacketType := .hostBiasCheck, cxlCache := some (d2hReq .rdShared 0x80000000) }

/-- The check, on its way to the device. -/
def unanswered : Packet := { req := 1, cmd := .readSharedReq, addr := 0x80000000 }

/-- **A refused coherence check.** The refusal has dropped the device's request,
so the port faults on the check whenever it is offered again. -/
theorem check_refused :
    ∃ b', recvTimingReq (full checking) .slave unanswered = .ok (b', none) ∧
      (b'.req 1).cxlCache = none ∧
      (∀ b, b.req 1 = b'.req 1 → Room b .slave →
        recvTimingReq b .slave unanswered = .error .nullPointer) ∧
      ¬ Transparent (full checking) b' .slave unanswered := by
  refine ⟨_, rfl, rfl, ?_, fun ht => absurd ht.message.2.2 (by decide)⟩
  intro b hb hroom
  have hreq : b.req unanswered.req = HomeAgent.forwarded .memRdFwd unanswered (checking 1) := hb
  have hdev : inCxlDev unanswered.addr = false := by decide
  have hmem : inCxlMem unanswered.addr = true := by decide
  have hc : unanswered.cacheResponding = false := rfl
  simp only [recvTimingReq, hc, hroom.notRetrying, hreq, buildMessage, convertHostAccess, hdev, hmem]
  simp [convertCheck, HomeAgent.checkCoherenceTiming, HomeAgent.forwarded]

end Gem5Cxl.L3.BridgeRefusal
