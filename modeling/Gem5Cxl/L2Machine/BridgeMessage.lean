import Gem5Cxl.L2Machine.PciBridge

/-!
# What the PCI bridge makes of a packet

`buildMessage`, case by case: what each port forwards, and when it can. The
upstream port makes messages of host accesses (`toCxl`), snoops of host accesses
to host memory, and answers of coherence checks; the DMA ports forward packets
as they are.

`hostMessage` and `snoopMessage` are tables of the messages the upstream port
makes; `makeCXLPacket_eq` and `makeCXLSnpReq_eq` say that the home agent follows
them.
-/
namespace Gem5Cxl.L2.PciBridge

open Core L1 L2.ConfigSpace HomeAgent

/-! ## The messages of the upstream port -/

/-- The CXL.mem message for a host access to `a`. -/
def hostMessage (a : Nat) : MemCmd → Option CxlReq
  | .readExReq => some (M2SReq.new ⟨.memRd, .snpInv, .meta0State, .any, a⟩)
  | .readSharedReq => some (M2SReq.new ⟨.memRd, .snpData, .meta0State, .shared, a⟩)
  | .readReq => some (M2SReq.new ⟨.memRd, .noOp, .noOp, .any, a⟩)
  | .writeReq => some (M2SRwD.new ⟨.memWr, .noOp, .meta0State, .any, a⟩)
  | _ => none

/-- The CXL.cache snoop for a host access to host memory at `a`. -/
def snoopMessage (a : Nat) : MemCmd → Option CxlCache
  | .readSharedReq => some (h2dReq .snpData a)
  | .readExReq => some (h2dReq .snpInv a)
  | _ => none

theorem makeCXLPacket_eq (pkt : Packet) (r : Request) :
    makeCXLPacket pkt r = (hostMessage pkt.addr pkt.cmd).map fun c =>
      { r with cxlPacketType := .cxlMemPacket, cxlReq := some c } := by
  unfold makeCXLPacket
  generalize pkt.cmd = cmd
  cases cmd <;> rfl

theorem makeCXLSnpReq_eq (pkt : Packet) (r : Request) :
    makeCXLSnpReq pkt r =
      match snoopMessage pkt.addr pkt.cmd with
      | some c => .ok { r with cxlPacketType := .cxlCacheH2DReq, cxlCache := some c }
      | none => .error .uninitialised := by
  unfold makeCXLSnpReq
  generalize pkt.cmd = cmd
  cases cmd <;> rfl

/-- The host accesses that become CXL.mem messages. -/
def toCxl (a : Nat) (t : CXLPacketType) : Prop :=
  inCxlDev a = true ∨ (inCxlMem a = true ∧ t ≠ .hostBiasCheck)

/-! ## Port by port -/

section Build

variable {d : Decoder} {p : SlavePort} {pkt : Packet} {r : Request} {a : Nat}

theorem zones_disjoint (h : inHostMem a = true) : inCxlDev a = false ∧ inCxlMem a = false := by
  simp only [inHostMem, decide_eq_true_eq] at h
  simp only [inCxlDev, inCxlMem, Bool.and_eq_false_iff, decide_eq_false_iff_not]
  omega

theorem dev_disjoint (h : inCxlDev a = true) : inCxlMem a = false ∧ inHostMem a = false := by
  simp only [inCxlDev, Bool.and_eq_true, decide_eq_true_eq] at h
  simp only [inCxlMem, inHostMem, Bool.and_eq_false_iff, decide_eq_false_iff_not]
  omega

theorem convertHostAccess_dma (hp : p ≠ .slave) :
    convertHostAccess d p pkt r = .ok (r, getMasterPort d pkt.addr) := by
  simp [convertHostAccess, hp]

theorem convertHostAccess_toCxl (hz : toCxl pkt.addr r.cxlPacketType) :
    convertHostAccess d .slave pkt r = (do
      let r' ← hostToCxl pkt r
      .ok (r', getMasterPort d pkt.addr)) := by
  rcases hz with hz | ⟨hz, ht⟩
  · simp [convertHostAccess, hz]
  · have hdev : inCxlDev pkt.addr = false := by
      by_contra hdev
      rw [(dev_disjoint (by simpa using hdev)).1] at hz
      cases hz
    simp [convertHostAccess, hz, hdev, ht]

theorem convertHostAccess_host (hz : inHostMem pkt.addr = true) :
    convertHostAccess d .slave pkt r = (do
      let r' ← hostToHost pkt r
      .ok (r', getMasterPort d 0x15000000)) := by
  obtain ⟨hdev, hmem⟩ := zones_disjoint hz
  simp [convertHostAccess, hz, hdev, hmem]

theorem convertHostAccess_other (hz : ¬ toCxl pkt.addr r.cxlPacketType)
    (hh : inHostMem pkt.addr = false) :
    convertHostAccess d .slave pkt r = .ok (r, getMasterPort d pkt.addr) := by
  unfold toCxl at hz
  rw [not_or] at hz
  have hcond : ¬ (inCxlMem pkt.addr = true ∧ r.cxlPacketType ≠ .hostBiasCheck) := hz.2
  unfold convertHostAccess
  rw [if_neg hz.1]
  by_cases hm : inCxlMem pkt.addr = true
  · have ht : ¬ (SlavePort.slave = .slave ∧ r.cxlPacketType ≠ .hostBiasCheck) :=
      fun h => hcond ⟨hm, h.2⟩
    rw [if_pos hm, if_neg ht]
  · rw [if_neg hm, hh]
    rfl

variable {r' : Request} {m : MasterPort}

/-- DMA ports change nothing; they look at the address of a coherence check. -/
theorem buildMessage_dma (hp : p ≠ .slave) :
    buildMessage d p pkt r = .ok (r', m) ↔ r' = r ∧
      if r.cxlPacketType = .hostBiasCheck
      then m = getMasterPort d 0xa0000000 ∧ ∃ c, r.cxlCache = some c ∧ inCxlMem c.getAddr = true
      else m = getMasterPort d pkt.addr := by
  simp only [buildMessage, convertHostAccess_dma hp, ok_bind, convertCheck]
  generalize getMasterPort d 0xa0000000 = home
  by_cases ht : r.cxlPacketType = .hostBiasCheck
  · rw [if_pos ht, if_pos ht, if_pos hp]
    cases r.cxlCache with
    | none => simp
    | some c =>
      by_cases ha : inCxlMem c.getAddr = true
      · rw [deref_some, ok_bind, if_pos ha]
        constructor
        · intro h
          cases h
          exact ⟨rfl, rfl, c, rfl, ha⟩
        · rintro ⟨rfl, rfl, -⟩
          rfl
      · simp [ha]
  · rw [if_neg ht, if_neg ht]
    simp [eq_comm]

/-- A host access to the CXL device or its memory gets its message. -/
theorem buildMessage_toCxl (hz : toCxl pkt.addr r.cxlPacketType) :
    buildMessage d .slave pkt r = .ok (r', m) ↔ m = getMasterPort d pkt.addr ∧
      ∃ c, hostMessage pkt.addr pkt.cmd = some c ∧
        r' = { r with cxlPacketType := .cxlMemPacket, cxlReq := some c } := by
  unfold buildMessage
  rw [convertHostAccess_toCxl hz]
  unfold hostToCxl
  rw [makeCXLPacket_eq]
  cases hostMessage pkt.addr pkt.cmd with
  | none => simp
  | some c => simp [convertCheck, eq_comm, and_comm]

/-- A host access to host memory gets its snoop, if it came for one. -/
theorem buildMessage_host (hz : inHostMem pkt.addr = true) :
    buildMessage d .slave pkt r = .ok (r', m) ↔
      r.cxlPacketType = .cxlCacheH2DReq ∧ m = getMasterPort d 0x15000000 ∧
        ∃ c, snoopMessage pkt.addr pkt.cmd = some c ∧
          r' = { r with cxlPacketType := .cxlCacheH2DReq, cxlCache := some c } := by
  unfold buildMessage
  rw [convertHostAccess_host hz]
  unfold hostToHost
  by_cases ht : r.cxlPacketType = .cxlCacheH2DReq
  · rw [if_pos ht, makeCXLSnpReq_eq]
    cases snoopMessage pkt.addr pkt.cmd with
    | none => simp
    | some c => simp [convertCheck, ht, eq_comm, and_comm]
  · simp [ht]

theorem checkCoherenceTiming_iff :
    checkCoherenceTiming pkt r = .ok r' ↔
      ∃ op a last opcode v, r.cxlCache = some ⟨.d2hReq, last, .d2hReq op a⟩ ∧
        memFwdOf op = some (opcode, v) ∧ r' = forwarded opcode pkt r := by
  unfold checkCoherenceTiming answerCheck CxlCache.d2hOpcode
  cases hc : r.cxlCache with
  | none => simp
  | some c =>
    obtain ⟨ty, last, body⟩ := c
    by_cases hty : ty = .d2hReq
    · cases body with
      | d2hReq op a =>
        cases hf : memFwdOf op with
        | none => simp [hty, hf]
        | some v =>
          obtain ⟨opcode, v⟩ := v
          simp [hty, hf, eq_comm]
      | _ => simp [hty]
    · simp [hty]

/-- Everything else on the upstream port goes on as it is, but for coherence checks. -/
theorem buildMessage_other (hz : ¬ toCxl pkt.addr r.cxlPacketType)
    (hh : inHostMem pkt.addr = false) :
    buildMessage d .slave pkt r = .ok (r', m) ↔ m = getMasterPort d pkt.addr ∧
      if r.cxlPacketType = .hostBiasCheck then checkCoherenceTiming pkt r = .ok r'
      else r' = r := by
  simp only [buildMessage, convertHostAccess_other hz hh, ok_bind, convertCheck]
  by_cases ht : r.cxlPacketType = .hostBiasCheck
  · rw [if_pos ht, if_pos ht]
    cases checkCoherenceTiming pkt r with
    | error e => simp
    | ok r1 => simp [eq_comm, and_comm]
  · rw [if_neg ht, if_neg ht]
    simp [eq_comm, and_comm]

theorem not_host_of_toCxl {t : CXLPacketType} (hz : toCxl a t) : inHostMem a = false := by
  by_contra hh
  obtain ⟨hdev, hmem⟩ := zones_disjoint (by simpa using hh)
  rcases hz with hz | hz
  · rw [hdev] at hz; cases hz
  · rw [hmem] at hz; cases hz.1

end Build

end Gem5Cxl.L2.PciBridge
