import Gem5Cxl.L2Machine.CxlXBar

/-!
# Refused bias checks of the device's crossbar

A request of the device's processor to a page in host bias is sent to the host
as a check, and the component behind the crossbar may refuse it. As after any
refusal, the crossbar should then have nothing of it in `routeTo`, its layer
should remember who is waiting (so that the peer's retry finds somebody to
retry), and the packet should be accepted when it comes again.

The port does the sending itself, and nothing of this is true: it enters the
request before it sends it, and it bypasses the layers.

* `Transparent`: what a refused check should leave behind.
* `refused_check_stuck`: no refused check does. Its request stays in `routeTo`,
  the layers have not heard of it, and as long as the entry is there, every
  further attempt to send it ends the simulation.
* `refused_check_crashes`: both ends of it on a small crossbar. The peer's retry
  fails the layer's assertion, and so does the packet if it is sent again.
* `refused_request`: what `DCOH` passes into the device comes back, if it is
  refused, as a snoop response. A CXL.mem request is sent into the device again; a
  snoop is not, and one of host memory goes to the host (`refused_snoop_to_host`).
-/
namespace Gem5Cxl.L3.CheckRefusal

open Core L1 L2 Dcoh

/-- A check of the processor (port 1), refused between `x` and `x'`, has left the
routing table alone, is waiting for its peer, and may come again. -/
structure Transparent (pkt : Packet) (x x' : CxlXBar) : Prop where
  routes : x'.routeTo = x.routeTo
  waiting : ∃ port, x.findRange 0x15000000 (0x15000000 + 0x40000) = .ok port ∧
    (x'.reqLayers port).waitingForPeer = some 1 ∧
    x'.recvReqRetry port ≠ .error (.assertion .waitingForPeerSet)
  retry : ∀ env, x'.portRecvTimingReq env 1 pkt ≠ .error (.assertion .routeToAbsent)

/-- What a refused check leaves behind instead: an entry of `routeTo`, and layers
that have not heard of it. The peer's retry fails unless some other packet was
waiting for the same peer, and the check itself fails whenever it comes again, in
this or any later state that still has the entry. -/
structure Stuck (pkt : Packet) (x x' : CxlXBar) : Prop where
  fresh : pkt.req ∉ x.routeTo
  entered : x'.routeTo = x.routeTo.insert pkt.req 1
  layers : x'.reqLayers = x.reqLayers
  peer : ∀ port, (x.reqLayers port).waitingForPeer = none →
    x'.recvReqRetry port = .error (.assertion .waitingForPeerSet)
  now : ∀ env, x'.portRecvTimingReq env 1 pkt = .error (.assertion .routeToAbsent)
  later : ∀ (y : CxlXBar) (env : Env), XBar.Static x.toXBar y.toXBar → pkt.req ∈ y.routeTo →
    hostBias y.bias (pageNum pkt.addr) = true →
    y.portRecvTimingReq env 1 pkt = .error (.assertion .routeToAbsent)

section Refused

variable {x x' : CxlXBar} {env : Env} {pkt : Packet} {port : PortID}

theorem recvReqRetry_unset (h : (x.reqLayers port).waitingForPeer = none) :
    x.recvReqRetry port = .error (.assertion .waitingForPeerSet) := by
  unfold CxlXBar.recvReqRetry XBar.recvReqRetry
  rw [Layer.recvRetry_unset h]
  rfl

theorem stuck_of_check (ha : inCxlMem pkt.addr = true)
    (hb : hostBias x.bias (pageNum pkt.addr) = true) {o : Outcome}
    (h : x.portRecvTimingReq env 1 pkt = .ok (x', o)) : Stuck pkt x x' := by
  rw [CxlXBar.portRecvTimingReq_host ha hb] at h
  obtain ⟨port, hport, h⟩ := bind_eq_ok.mp h
  obtain ⟨hnew, hroute, hlayers, hbias, hstatic⟩ := CxlXBar.sendCheck_ok h
  have hlater : ∀ (y : CxlXBar) env, XBar.Static x.toXBar y.toXBar → pkt.req ∈ y.routeTo →
      hostBias y.bias (pageNum pkt.addr) = true →
      y.portRecvTimingReq env 1 pkt = .error (.assertion .routeToAbsent) := by
    intro y env hy hin hby
    -- while its request is in `routeTo`, a check cannot be sent
    rw [CxlXBar.portRecvTimingReq_host ha hby, (hy.findAddr _).trans hport]
    exact if_pos hin
  refine ⟨hnew, hroute, hlayers, ?_, ?_, hlater⟩
  · intro p hp
    refine recvReqRetry_unset ?_
    rw [hlayers]
    exact hp
  · intro env'
    refine hlater x' env' hstatic ?_ ?_
    · rw [hroute]
      exact AList.mem_insert _ |>.mpr (.inl rfl)
    · rw [hbias, hostBias_update, if_pos rfl]

end Refused

/-- **A refused check is stuck.** No refusal of a check is transparent. -/
theorem refused_check_stuck {x x' : CxlXBar} {env : Env} {pkt : Packet}
    (ha : inCxlMem pkt.addr = true) (hb : hostBias x.bias (pageNum pkt.addr) = true)
    (h : x.portRecvTimingReq env 1 pkt = .ok (x', .refused)) :
    ¬ Transparent pkt x x' ∧ Stuck pkt x x' := by
  have hs := stuck_of_check ha hb h
  refine ⟨?_, hs⟩
  intro ht
  have hin : pkt.req ∈ x'.routeTo := by
    rw [hs.entered]
    exact AList.mem_insert _ |>.mpr (.inl rfl)
  rw [ht.routes] at hin
  exact hs.fresh hin

/-- A device with its registers behind port 0, all of whose pages are in host bias. -/
def device : CxlXBar := { portMap := [(⟨0x15000000, 0x15040000⟩, 0)] }

/-- The processor reads the first line of the device's memory. -/
def read : Packet := { req := 1, cmd := .readReq, addr := 0x80000000 }

theorem refused_check_stuck_first_line :
    ∃ x', device.portRecvTimingReq { answer := none } 1 read = .ok (x', .refused) ∧
      ¬ Transparent read device x' ∧ Stuck read device x' := by
  have h : device.portRecvTimingReq { answer := none } 1 read = .ok (_, .refused) := rfl
  exact ⟨_, h, refused_check_stuck rfl rfl h⟩

/-- **Both ends fail.** The coherence engine refuses the check once. When it is ready
again its retry fails the layer's assertion, and if the processor sends the packet
again it fails the one on `routeTo`. -/
theorem refused_check_crashes :
    ∃ x', device.portRecvTimingReq { answer := none } 1 read = .ok (x', .refused) ∧
      x'.routeTo ≠ device.routeTo ∧
      (x'.reqLayers 0).waitingForPeer = none ∧
      x'.recvReqRetry 0 = .error (.assertion .waitingForPeerSet) ∧
      x'.portRecvTimingReq { answer := some {} } 1 read = .error (.assertion .routeToAbsent) := by
  refine ⟨_, rfl, ?_, rfl, rfl, rfl⟩
  intro h
  have h1 := congrArg (AList.lookup 1) h
  cases h1

/-! ## Requests into the device -/

section Refusal
open Dcoh

variable {pkt : Packet} {r r' : Request} {b : ReqBranch}

theorem recvTimingReq_ok (h : recvTimingReq pkt r = .ok (b, r')) (hb : b ≠ .host) :
    r' = { r with cxlPacketType := .cxlCacheH2DResp } ∧
      ((b = .snoop ∧ r.cxlPacketType = .cxlCacheH2DReq) ∨
        (b = .memory ∧ r.cxlPacketType ≠ .cxlCacheH2DReq ∧ inCxlMem pkt.addr = true ∧
          r.cxlReq ≠ none)) := by
  by_cases hs : r.cxlPacketType = .cxlCacheH2DReq
  · simp [recvTimingReq, recvCoherentCheckReq, memActionTiming, hs] at h
    exact ⟨h.2.symm, .inl ⟨h.1.symm, hs⟩⟩
  · by_cases hh : inHostMem pkt.addr = true ∨ r.cxlPacketType = .hostBiasCheck
    · simp [recvTimingReq, hs, hh] at h
      exact absurd h.1.symm hb
    · by_cases hm : inCxlMem pkt.addr = true ∧ r.cxlReq ≠ none
      · simp [recvTimingReq, recvCoherentCheckReq, memActionTiming, hs, hm, not_or.1 hh] at h
        exact ⟨h.2.symm, .inr ⟨h.1.symm, hs, hm⟩⟩
      · simp [recvTimingReq, hs, hh] at h
        grind

/-- **Refused requests.** The type survives a refusal only if it was that of a snoop
response, and the packet takes its branch again if and only if it is no snoop, that is,
a request to the device's memory. -/
theorem refused_request (h : recvTimingReq pkt r = .ok (b, r')) (hb : b ≠ .host) :
    (r'.cxlPacketType = r.cxlPacketType ↔ r.cxlPacketType = .cxlCacheH2DResp) ∧
      ((∃ r'', recvTimingReq pkt r' = .ok (b, r'')) ↔
        r.cxlPacketType ≠ .cxlCacheH2DReq ∧ inCxlMem pkt.addr = true) := by
  obtain ⟨rfl, ⟨rfl, hs⟩ | ⟨rfl, hs, hmem, hreq⟩⟩ := recvTimingReq_ok h hb
  · refine ⟨eq_comm, iff_of_false ?_ fun hc => hc.1 hs⟩
    rintro ⟨r'', h'⟩
    simpa using (recvTimingReq_ok h' hb).2
  · have hhost : inHostMem pkt.addr = false := by
      simp only [inCxlMem, inHostMem, Bool.and_eq_true, decide_eq_true_eq,
        decide_eq_false_iff_not] at hmem ⊢
      omega
    refine ⟨eq_comm, iff_of_true ⟨{ r with cxlPacketType := .cxlCacheH2DResp }, ?_⟩ ⟨hs, hmem⟩⟩
    simp [recvTimingReq, recvCoherentCheckReq, memActionTiming, hmem, hreq, hhost]

end Refusal

def memRead : Request :=
  { cxlPacketType := .cxlMemPacket
    cxlReq := some (M2SReq.new ⟨.memRd, .snpInv, .noOp, .any, 0x80000000⟩) }

theorem refused_memory_read :
    ∃ r'', recvTimingReq read { memRead with cxlPacketType := .cxlCacheH2DResp } =
      .ok (.memory, r'') :=
  (refused_request (b := .memory) (r := memRead) rfl nofun).2.2 ⟨nofun, rfl⟩

/-- A snoop of host memory, once refused, is sent to the host. -/
theorem refused_snoop_to_host :
    let pkt : Packet := { req := 0, cmd := .readReq, addr := 0xA0000000 }
    ∃ r', recvTimingReq pkt { cxlPacketType := .cxlCacheH2DReq } = .ok (.snoop, r') ∧
      r'.cxlPacketType = .cxlCacheH2DResp ∧
      (recvTimingReq pkt r').map Prod.fst = .ok .host :=
  ⟨_, rfl, rfl, rfl⟩

end Gem5Cxl.L3.CheckRefusal
