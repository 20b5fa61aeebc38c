import Gem5Cxl.L2Machine.BridgeMessage
import Gem5Cxl.L2Machine.Dcoh

/-!
# Host-bias checks in atomic and in timing mode

A device access to a host-biased page of CXL memory first snoops the host. In
atomic mode that is one call: the home agent snoops and answers, and the device
sets the page's bias from the answer (`atomicCheck`). In timing mode the answer
comes back on one of two paths (`timingCheck`):

* a host cache that owns the line responds. The response passes the bridge, where
  it gets the home agent's answer, and reaches `CXLDevice::recvTimingResp`, which
  sets the bias;
* otherwise the check itself comes back, as a request on the bridge's upstream
  port. It gets the answer there and reaches `DCOH::recvCoherentCheckReq`, which
  sends it on to the device's memory. Nobody sets the bias.

Both start from the lookup of the page's bias, which may enter the page in the
table. `modes_agree_iff`: the two modes leave the same table exactly if the
second path is not taken, or would not have changed the bias.
-/
namespace Gem5Cxl.L3.BiasModes

open Core L1 L2 L2.ConfigSpace L2.Dcoh Function HomeAgent PciBridge

/-- What the snoop of the host caches found: whether an owner responds, and
whether somebody shares the line. -/
structure Outcome where
  responding : Bool
  hasSharers : Bool
deriving DecidableEq, Repr

def Outcome.miss : Outcome := ⟨false, false⟩
def Outcome.dirtyHit : Outcome := ⟨true, false⟩

def Outcome.mark (o : Outcome) (pkt : Packet) : Packet :=
  { pkt with cacheResponding := o.responding, hasSharers := o.hasSharers }

/-- The packet's request as the crossbar marks it. -/
def asCheck (r : Request) : Request := { r with cxlPacketType := .hostBiasCheck }

/-- `CXLXBar::recvAtomicBackdoor` on a device access, up to the access itself.
mirrors CXLXBar.cc:222-258 -/
def atomicCheck (o : Outcome) (pkt : Packet) (r : Request) (t : BiasTable) :
    Except Fault BiasTable := do
  let (inHostBias, t) ← isHostBiasMode t pkt.addr
  if inHostBias then
    let (_, t) ← hostSend (HomeAgent.recvAtomicCheck o.mark) pkt (asCheck r) t
    .ok t
  else .ok t

/-- The way back of a check that an owner has answered: the master port of the
bridge, then the device. -/
def answered (pkt : Packet) (r : Request) (t : BiasTable) : Except Fault BiasTable := do
  let r ← respMessage pkt r
  let (_, _, t) ← Dcoh.recvTimingResp pkt r t
  .ok t

/-- The way back of a check that nobody has answered: the upstream port of the
bridge, then the device. -/
def unanswered (d : Decoder) (pkt : Packet) (r : Request) (t : BiasTable) :
    Except Fault BiasTable := do
  let (r, _) ← buildMessage d .slave pkt r
  let _ ← recvCoherentCheckReq pkt r
  .ok t

/-- `CXLXBarResponsePort::recvTimingReq` on a device access, the way of its check
through the bridge, and its way back. mirrors CXLXBar.cc:52-104 -/
def timingCheck (d : Decoder) (o : Outcome) (pkt : Packet) (r : Request) (t : BiasTable) :
    Except Fault BiasTable := do
  let (inHostBias, t) ← isHostBiasMode t pkt.addr
  if inHostBias then
    let r ← hostSendTiming pkt (asCheck r)
    let (r, _) ← buildMessage d .dma2 pkt r
    if o.responding then answered (o.mark pkt) r t else unanswered d (o.mark pkt) r t
  else .ok t

/-! ## What the two modes do -/

theorem memFwdOf_readWrite {cmd : MemCmd} (h : (cmd.isRead || cmd.isWrite) = true) :
    ∃ v, memFwdOf (d2hOpcodeOf cmd) = some (.memRdFwd, v) := by
  cases cmd <;> first | exact ⟨_, rfl⟩ | cases h

section Check

variable {o : Outcome} {pkt : Packet} {r : Request} {t : BiasTable} (d : Decoder)

/-- The request of the check, as the device sends it. -/
def asked (pkt : Packet) (r : Request) : Request := makeCXLrequest pkt (asCheck r)

theorem asked_cxlCache :
    (asked pkt r).cxlCache = some (d2hReq (d2hOpcodeOf pkt.cmd) pkt.addr) := rfl

theorem asked_type : (asked pkt r).cxlPacketType = .hostBiasCheck := rfl

theorem applyMemFwd_answer (pkt : Packet) (r : Request) (t : BiasTable)
    (ha : inCxlMem pkt.addr = true) :
    applyMemFwd pkt (forwarded .memRdFwd pkt r) t =
      .ok (update t (pageNum pkt.addr) (some pkt.hasSharers)) := by
  rw [applyMemFwd_fwd (.inl rfl) rfl, setBiasMode_ok t _ ha]
  cases pkt.hasSharers <;> rfl

section

variable (ha : inCxlMem pkt.addr = true)
include ha

theorem atomicCheck_eq (hrw : (pkt.cmd.isRead || pkt.cmd.isWrite) = true)
    (hb : hostBias t (pageNum pkt.addr) = true) :
    atomicCheck o pkt r t = .ok (update t (pageNum pkt.addr) (some o.hasSharers)) := by
  obtain ⟨v, hv⟩ := memFwdOf_readWrite hrw
  have hsend : recvAtomicCheck o.mark pkt (asked pkt r) =
      .ok (o.mark pkt, forwarded .memRdFwd (o.mark pkt) (asked pkt r)) := by
    unfold recvAtomicCheck
    rw [asked_cxlCache, deref_some, ok_bind]
    exact (if_pos ha).trans (checkCoherence_d2hReq o.mark pkt _ asked_cxlCache hv)
  have happly := applyMemFwd_answer (o.mark pkt) (asked pkt r)
    (update t (pageNum pkt.addr) (some true)) ha
  have hask : (if (asCheck r).cxlPacketType ≠ .cxlCacheH2DReq
      then makeCXLrequest pkt (asCheck r) else asCheck r) = asked pkt r := rfl
  have hty : (forwarded .memRdFwd (o.mark pkt) (asked pkt r)).cxlPacketType =
    .hostBiasCheck := rfl
  unfold atomicCheck hostSend
  rw [isHostBiasMode_ok t ha, hb]
  simp only [if_true, hask, hsend, ok_bind, hty, happly]
  simp [Outcome.mark]

/-- The check leaves the device and the bridge's DMA port as the device made it. -/
theorem check_sent :
    hostSendTiming pkt (asCheck r) = .ok (asked pkt r) ∧
      ∃ m, buildMessage d .dma2 pkt (asked pkt r) = .ok (asked pkt r, m) := by
  refine ⟨rfl, getMasterPort d 0xa0000000, (buildMessage_dma (by simp)).mpr ⟨rfl, ?_⟩⟩
  exact ⟨rfl, _, asked_cxlCache, ha⟩

section

variable (hrw : (pkt.cmd.isRead || pkt.cmd.isWrite) = true)
include hrw

theorem answered_eq (hd : r.cxlDataAtomic2 = none) :
    answered (o.mark pkt) (asked pkt r) t =
      .ok (update t (pageNum pkt.addr) (some o.hasSharers)) := by
  obtain ⟨v, hv⟩ := memFwdOf_readWrite hrw
  have hcheck : checkCoherenceTiming (o.mark pkt) (asked pkt r) =
      .ok (forwarded .memRdFwd (o.mark pkt) (asked pkt r)) :=
    checkCoherenceTiming_d2hReq _ _ asked_cxlCache hv
  have hresp : reciveCXL (o.mark pkt) (forwarded .memRdFwd (o.mark pkt) (asked pkt r)) = .ok _ := reciveCXL_none rfl hd
  have happly := applyMemFwd_answer (o.mark pkt) (asked pkt r) t ha
  have hty : (forwarded .memRdFwd (o.mark pkt) (asked pkt r)).cxlPacketType =
    .hostBiasCheck := rfl
  unfold answered respMessage
  simp only [asked_type, hcheck, hresp, Dcoh.recvTimingResp, hty, ne_eq, not_true_eq_false, false_and, if_false, if_true,
    ok_bind, happly, sendResp]
  rfl

/-- The second way back reaches the device's memory and leaves the table alone. -/
theorem unanswered_eq : unanswered d (o.mark pkt) (asked pkt r) t = .ok t := by
  obtain ⟨v, hv⟩ := memFwdOf_readWrite hrw
  have hz : ¬ toCxl (o.mark pkt).addr (asked pkt r).cxlPacketType := by
    rintro (hdev | ⟨-, hty⟩)
    · exact nomatch ha.symm.trans (dev_disjoint hdev).1
    · exact hty rfl
  have hh : inHostMem (o.mark pkt).addr = false := by
    by_contra hh
    exact nomatch ha.symm.trans (zones_disjoint (eq_true_of_ne_false hh)).2
  have hbuild : buildMessage d .slave (o.mark pkt) (asked pkt r) =
      .ok (forwarded .memRdFwd (o.mark pkt) (asked pkt r),
        getMasterPort d (o.mark pkt).addr) := by
    rw [buildMessage_other hz hh]
    exact ⟨rfl, checkCoherenceTiming_d2hReq _ _ asked_cxlCache hv⟩
  have hmem : inCxlMem (o.mark pkt).addr = true := ha
  unfold unanswered
  rw [hbuild]
  simp only [ok_bind, recvCoherentCheckReq, hmem, if_true]

theorem timingCheck_eq (hb : hostBias t (pageNum pkt.addr) = true) (hd : r.cxlDataAtomic2 = none) :
    timingCheck d o pkt r t = .ok (update t (pageNum pkt.addr)
      (some (if o.responding then o.hasSharers else true))) := by
  obtain ⟨hsend, m, hbuild⟩ := check_sent (r := r) d ha
  unfold timingCheck
  rw [isHostBiasMode_ok t ha, hb]
  simp only [if_true, hsend, hbuild, ok_bind]
  split
  · rw [answered_eq ha hrw hd, update_idem]
  · exact unanswered_eq d ha hrw

end

end

end Check

/-- **Atomic and timing checks.** Both modes complete every device read or write
of host-biased CXL memory. They leave the same table exactly if an owner
responded or somebody shares the line. -/
theorem modes_agree_iff (d : Decoder) (o : Outcome) {pkt : Packet} {r : Request} {t : BiasTable}
    (ha : inCxlMem pkt.addr = true) (hrw : (pkt.cmd.isRead || pkt.cmd.isWrite) = true)
    (hb : hostBias t (pageNum pkt.addr) = true) (hd : r.cxlDataAtomic2 = none) :
    ∃ ta tt, atomicCheck o pkt r t = .ok ta ∧ timingCheck d o pkt r t = .ok tt ∧
      (ta = tt ↔ o.responding = true ∨ o.hasSharers = true) := by
  refine ⟨_, _, atomicCheck_eq ha hrw hb, timingCheck_eq d ha hrw hb hd, ?_⟩
  have hpage : ∀ b b' : Bool, update t (pageNum pkt.addr) (some b) =
      update t (pageNum pkt.addr) (some b') ↔ b = b' := by
    intro b b'
    refine ⟨fun h => ?_, fun h => by rw [h]⟩
    have hp := congrFun h (pageNum pkt.addr)
    simpa using hp
  rw [hpage]
  obtain ⟨responding, hasSharers⟩ := o
  cases responding <;> cases hasSharers <;> simp

/-- A dirty hit: both modes hand the page to the device. -/
theorem modes_agree_iff_dirty_hit :
    ∃ ta tt, atomicCheck .dirtyHit { req := 0, cmd := .readExReq, addr := 0x80000000 } {}
        (fun _ => none) = .ok ta ∧
      timingCheck (withDevice .two) .dirtyHit { req := 0, cmd := .readExReq, addr := 0x80000000 } {}
        (fun _ => none) = .ok tt ∧ ta = tt ∧ hostBias tt 0x80000 = false := by
  obtain ⟨ta, tt, hta, htt, hiff⟩ := @modes_agree_iff (withDevice .two) .dirtyHit
    { req := 0, cmd := .readExReq, addr := 0x80000000 } {} (fun _ => none)
    (by decide) (by decide) (by decide) rfl
  have heq := hiff.mpr (.inl rfl)
  refine ⟨ta, tt, hta, htt, heq, ?_⟩
  cases htt
  decide

/-- **A miss.** Atomic mode hands the page to the device, timing mode keeps it in
host bias. -/
theorem miss_differs :
    ∃ ta tt, atomicCheck .miss { req := 0, cmd := .readSharedReq, addr := 0x80000000 } {}
        (fun _ => none) = .ok ta ∧
      timingCheck (withDevice .two) .miss { req := 0, cmd := .readSharedReq, addr := 0x80000000 } {}
        (fun _ => none) = .ok tt ∧
      hostBias ta 0x80000 = false ∧ hostBias tt 0x80000 = true ∧ ta ≠ tt := by
  refine ⟨_, _, rfl, rfl, rfl, rfl, fun h => ?_⟩
  exact absurd (congrFun h 0x80000) (by decide)

end Gem5Cxl.L3.BiasModes
