import Gem5Cxl.L2Machine.Dcoh
import Gem5Cxl.L3Protocol.BridgeRuns

/-!
# Response credits of the PCI bridge

A slave port reserves a slot for a response when it accepts a request, and
gives the slot back when it has sent the response. Reserving is done by the
port that accepts; giving back is done by whatever port `recvTimingResp` picks:
slave_dma2 for a `HostBiasCheck`, the upstream port for a `CXLcacheH2DResp`, and
the port in `routeTo` for everything else.

`CreditOk` is the discipline: each port's `outstandingResponses` is the number of
response-needing packets it has accepted and not answered, within the limit, and
responses are listed on the port that accepted their packet. Two runs break it:

* `snoop_miss_leaks`: a host read that snoops the device and misses there is
  accepted twice, by the upstream port on its way to the device and by slave_dma2
  on its way from the device to memory. The one response goes to the upstream
  port, and slave_dma2 never gets its slot back.
* a `HostBiasCheck` from a device behind slave_dma1 is answered on slave_dma2,
  whose counter is then decremented below zero.

`credit_conserved`: the discipline holds along every run in which responses of
the two special types come only for packets that their fixed port accepted, and
no port is offered a request that another port has accepted and not yet sent
(`Fits`).
-/
namespace Gem5Cxl.L3.BridgeCredit

open Core L1 L2 L2.ConfigSpace L2.PciBridge
open L3.BridgeRuns

/-- The packets port `p` has to send a response for. -/
def owes (p : SlavePort) (t : Txn) : Bool := t.port = p && t.needsResponse

structure CreditOk (s : Sys) : Prop where
  credit : ∀ p, (s.bridge.slave p).outstandingResponses = s.ledger.count (owes p)
  limit : ∀ p, (s.bridge.slave p).outstandingResponses ≤ s.bridge.respQueueLimit
  home : ∀ p, ∀ pkt ∈ (s.bridge.slave p).transmitList, ∃ t ∈ s.ledger, t.id = pkt.id ∧ t.port = p

def Txn.entered (t : Txn) : Bool :=
  match t.stage with
  | .inFlight _ e => e
  | _ => false

/-- The response of `t` may come with its request as `r`. -/
def answerable (t : Txn) (r : Request) : Bool :=
  match r.cxlPacketType with
  | .hostBiasCheck => t.port = .dma2 && r.cxlDataAtomic2 = none
  | .cxlCacheH2DResp => t.port = .slave
  | _ => Txn.entered t

/-- What the environment must keep to, step by step. -/
def Fits (s : Sys) : Ev → Bool
  | .recvTimingReq p pkt => s.ledger.entries.all fun t =>
      !(t.isQueued && t.req = pkt.req) || t.port = p
  | .recvTimingResp pkt => s.ledger.entries.all fun t =>
      t.id ≠ pkt.id || answerable t (s.bridge.req pkt.req)
  | _ => true

/-! ## The invariant -/

structure Inv (s : Sys) : Prop extends Tracked s where
  credit : ∀ p, (s.bridge.slave p).outstandingResponses = s.ledger.count (owes p)
  limit : ∀ p, (s.bridge.slave p).outstandingResponses ≤ s.bridge.respQueueLimit
  slaveID : ∀ t ∈ s.ledger, ∀ m, t.stage = .queued m →
    (s.bridge.req t.req).pciBridgeSlaveID = t.port
  routed : ∀ t ∈ s.ledger, ∀ o, t.stage = .inFlight o true →
    s.bridge.routeTo t.req = some t.port
  single : ∀ t ∈ s.ledger, ∀ u ∈ s.ledger, ∀ o o', t.stage = .inFlight o true →
    u.stage = .inFlight o' true → t.req = u.req → t = u
  own : ∀ t ∈ s.ledger, ∀ p, t.stage = .answered p → t.port = p ∧ t.needsResponse = true

theorem Inv.creditOk {s : Sys} (h : Inv s) : CreditOk s := by
  refine ⟨h.credit, h.limit, ?_⟩
  intro p pkt hpkt
  obtain ⟨t, ht, hid, hst⟩ := h.resp p pkt hpkt
  exact ⟨t, ht, hid, (h.own t ht p hst).1⟩

theorem owes_toStage (p : SlavePort) (i : Nat) (stage : Stage) (t : Txn) :
    owes p (toStage i stage t) = owes p t := by
  unfold owes
  rw [toStage_port, toStage_needsResponse]

section Preserved

variable {s s' : Sys} {taken : Bool} {m : MasterPort} {r : Request} {t : Txn}

theorem inv_start (d : Decoder) (n k : Nat) (req : ReqId → Request) :
    Inv (Sys.start d n k req) := by
  refine ⟨tracked_start d n k req, ?_, ?_, ?_, ?_, ?_, ?_⟩ <;> simp [Sys.start]

variable {p : SlavePort} {pkt : Packet}

theorem port_of_fits (hf : Fits s (.recvTimingReq p pkt) = true) (ht : t ∈ s.ledger)
    (hst : t.stage = .queued m) (hreq : t.req = pkt.req) : t.port = p := by
  simp only [Fits, List.all_eq_true] at hf
  simpa [Txn.isQueued, hst, hreq] using hf t ht

/-- The port's own id is in the request, whoever of its packets is still queued. -/
theorem slaveID_update (hi : Inv s) (hf : Fits s (.recvTimingReq p pkt) = true)
    (hr : r.pciBridgeSlaveID = p) (ht : t ∈ s.ledger) (hst : t.stage = .queued m) :
    (Function.update s.bridge.req pkt.req r t.req).pciBridgeSlaveID = t.port := by
  by_cases hreq : t.req = pkt.req
  · rw [hreq, Function.update_self, hr, port_of_fits hf ht hst hreq]
  · rw [Function.update_of_ne hreq]
    exact hi.slaveID t ht m hst

theorem inv_recvTimingReq (hi : Inv s) (htr : Tracked s')
    (he : enabled s (.recvTimingReq p pkt) = true) (hf : Fits s (.recvTimingReq p pkt) = true)
    (h : step s (.recvTimingReq p pkt) = .ok s') : Inv s' := by
  have hfresh := fresh_of_enabled he
  obtain ⟨r, hr, rfl | ⟨m, hroom, rfl⟩⟩ := step_recvTimingReq h
  · refine ⟨htr, by simpa using hi.credit, ?_, ?_, hi.routed, hi.single, hi.own⟩
    · intro p'
      rw [refused_outstanding]
      exact hi.limit p'
    · intro t ht m hst
      exact slaveID_update hi hf hr ht hst
  · refine ⟨htr, ?_, ?_, ?_, ?_, ?_, ?_⟩
    · intro p'
      rw [accepted_outstanding, Ledger.count_record hfresh, hi.credit p']
      have howes : owes p' (opened p m pkt) = true ↔ p = p' ∧ pkt.needsResponse = true := by
        simp only [owes, Bool.and_eq_true, decide_eq_true_eq]
        exact .rfl
      simp only [howes]
    · intro p'
      have hlim := hi.limit p'
      rw [accepted_outstanding]
      split
      · rename_i hnew
        obtain ⟨rfl, hn⟩ := hnew
        have hne := hroom hn
        show _ ≤ s.bridge.respQueueLimit
        omega
      · exact hlim
    · refine Ledger.forall_record hfresh (fun t ht m' hst => slaveID_update hi hf hr ht hst) fun m' _ => ?_
      simp [accepted, Bridge.setReq, Bridge.setSlave, Bridge.setMaster, opened, hr]
    · exact Ledger.forall_record hfresh hi.routed (by simp [opened])
    · refine Ledger.forall_record hfresh (fun t ht => ?_) (by simp [opened])
      exact Ledger.forall_record hfresh (hi.single t ht) (by simp [opened])
    · exact Ledger.forall_record hfresh hi.own (by simp [opened])

theorem inv_trySendReq {answer : Option Request} (hi : Inv s) (htr : Tracked s')
    (h : step s (.trySendReq m answer) = .ok s') : Inv s' := by
  obtain rfl | ⟨pkt, rest, r, hm, -, hroute, rfl⟩ := step_trySendReq h
  · exact hi
  obtain ⟨t0, ht0, hid0, hreq0, -, hst0⟩ := hi.req m pkt (by rw [hm]; exact List.mem_cons_self)
  -- no packet of the request just sent was in `routeTo`
  have hother : ∀ {t o}, t ∈ s.ledger → t.stage = .inFlight o true → t.req ≠ pkt.req := by
    intro t o ht hst heq
    have hsome := hi.routed t ht o hst
    rw [heq, hroute] at hsome
    cases hsome
  have hid : (sent s.bridge m pkt rest r).req pkt.req =
      { r with pciBridgeSlaveID := (s.bridge.req pkt.req).pciBridgeSlaveID } := by simp [sent]
  refine ⟨htr, ?_, hi.limit, ?_, ?_, ?_, ?_⟩
  · intro p
    rw [Ledger.count_amend (owes_toStage p _ _)]
    exact hi.credit p
  · refine forall_amend ht0 hid0 (fun t ht m' hst => ?_) (by simp)
    have hold := hi.slaveID t ht m' hst
    by_cases hreq : t.req = pkt.req
    · rw [hreq] at hold ⊢
      rw [hid]
      exact hold
    · simpa [sent, hreq] using hold
  · refine forall_amend ht0 hid0 (fun t ht o hst => ?_) fun o hst => ?_
    · have hold := hi.routed t ht o hst
      have hne := hother ht hst
      simp only [sent]
      split
      · rw [Function.update_of_ne hne]
        exact hold
      · exact hold
    · simp only [Stage.inFlight.injEq] at hst
      simp [sent, hst.2, hreq0, ← hi.slaveID t0 ht0 m hst0]
  · refine forall_amend ht0 hid0 (fun t ht => ?_) (forall_amend ht0 hid0 (fun u hu o o' hst hsu hreq => ?_) ?_)
    · refine forall_amend ht0 hid0 (hi.single t ht) fun o o' hst _ hreq => ?_
      exact absurd (hreq.trans hreq0) (hother ht hst)
    · exact absurd (hreq.symm.trans hreq0) (hother hu hsu)
    · exact fun _ _ _ _ _ => rfl
  · exact forall_amend ht0 hid0 hi.own (by simp)

/-! ## Responses -/

/-- Under the guard, the port `recvTimingResp` picks is the one that accepted
the packet. -/
theorem respPort_answerable (hi : Inv s) (ht : t ∈ s.ledger) {o e : Bool}
    (hst : t.stage = .inFlight o e) (ha : answerable t (s.bridge.req t.req) = true)
    (hp : respPort s.bridge t.req (s.bridge.req t.req).cxlPacketType = .ok p) : t.port = p := by
  unfold answerable at ha
  unfold respPort at hp
  split at hp
  · rename_i hty
    rw [hty] at ha
    cases hp
    simp only [Bool.and_eq_true, decide_eq_true_eq] at ha
    exact ha.1
  · rename_i hty
    rw [hty] at ha
    cases hp
    simpa using ha
  · rename_i hhbc hh2d
    split at ha
    · rename_i hty; exact absurd hty hhbc
    · rename_i hty; exact absurd hty hh2d
    · simp only [Txn.entered, hst] at ha
      subst ha
      rw [hi.routed t ht o hst] at hp
      cases hp
      rfl

/-- Under the guard, a response that takes its request out of `routeTo` is one
of a packet that was entered there. -/
theorem entered_of_erased {r' : Request} {o e : Bool} (hst : t.stage = .inFlight o e)
    (ha : answerable t r = true)
    (hr : respMessage pkt r = .ok r') (hf : fixedPort r'.cxlPacketType = false) : e = true := by
  have hd : r.cxlPacketType = .hostBiasCheck → r.cxlDataAtomic2 = none := by
    intro hty
    simp only [answerable, hty, Bool.and_eq_true, decide_eq_true_eq] at ha
    exact ha.2
  rw [respMessage_fixedPort hr hd] at hf
  unfold answerable at ha
  split at ha
  · rename_i hty; simp [fixedPort, hty] at hf
  · rename_i hty; simp [fixedPort, hty] at hf
  · simpa [Txn.entered, hst] using ha

theorem inv_recvTimingResp (hi : Inv s) (htr : Tracked s')
    (he : enabled s (.recvTimingResp pkt) = true) (hf : Fits s (.recvTimingResp pkt) = true)
    (h : step s (.recvTimingResp pkt) = .ok s') : Inv s' := by
  obtain ⟨t0, ht0, hid0, hreq0, hn0, o0, e0, hst0⟩ := inFlight_of_enabled he
  obtain ⟨p, r, hp, hr, rfl⟩ := step_recvTimingResp h
  have ha : answerable t0 (s.bridge.req pkt.req) = true := by
    simp only [Fits, List.all_eq_true] at hf
    simpa [hid0] using hf t0 ht0
  have hport : t0.port = p := by
    rw [← hreq0] at ha hp
    exact respPort_answerable hi ht0 hst0 ha hp
  refine ⟨htr, ?_, ?_, ?_, ?_, ?_, ?_⟩
  · intro p'
    rw [queued_outstanding, Ledger.count_amend (owes_toStage p' _ _)]
    exact hi.credit p'
  · intro p'
    rw [queued_outstanding]
    exact hi.limit p'
  · refine forall_amend ht0 hid0 (fun t ht m hst => ?_) (by simp)
    have hold := hi.slaveID t ht m hst
    by_cases hreq : t.req = pkt.req
    · simpa [queued, hreq, respMessage_slaveID hr] using hold
    · simpa [queued, hreq] using hold
  · intro t ht o hst
    rcases mem_amend_cases _ ht0 hid0 ht with ⟨ht, hid⟩ | rfl
    · have hold := hi.routed t ht o hst
      by_cases hfix : fixedPort r.cxlPacketType = true
      · simpa [queued, hfix] using hold
      · -- `t` and the packet answered are both in `routeTo`, so of different requests
        have he0 : e0 = true := entered_of_erased hst0 ha hr (by simpa using hfix)
        have hne : t.req ≠ pkt.req := by
          intro heq
          obtain rfl := hi.single t ht t0 ht0 o o0 hst (he0 ▸ hst0) (heq.trans hreq0.symm)
          exact hid hid0
        simpa [queued, hfix, hne] using hold
    · cases hst
  · exact forall_amend ht0 hid0 (fun t ht => forall_amend ht0 hid0 (hi.single t ht) (by simp)) (by simp)
  · refine forall_amend ht0 hid0 hi.own fun p' hst => ?_
    simp only [Stage.answered.injEq] at hst
    exact ⟨hport.trans hst, hn0⟩

theorem inv_trySendResp (hi : Inv s) (htr : Tracked s')
    (h : step s (.trySendResp p taken) = .ok s') : Inv s' := by
  obtain rfl | ⟨pkt, rest, hl, rfl⟩ := step_trySendResp h
  · exact hi
  obtain ⟨t0, ht0, hid0, hst0⟩ := hi.resp p pkt (by rw [hl]; exact List.mem_cons_self)
  obtain ⟨hport0, hn0⟩ := hi.own t0 ht0 p hst0
  have hmem : ∀ {t}, t ∈ (s.ledger.discard fun t => t.id = pkt.id && t.port = p) → t ∈ s.ledger :=
    fun ht => (Ledger.mem_discard.mp ht).1
  refine ⟨htr, ?_, ?_, ?_, ?_, ?_, ?_⟩
  · intro p'
    -- exactly the entry of the packet sent is closed, and port `p` owed for it
    have hcount := Ledger.count_discard (Q := fun t => t.id = pkt.id && t.port = p) ht0
      (by simp [hid0, hport0])
      (fun u hu hQ => by
        simp only [Bool.and_eq_true, decide_eq_true_eq] at hQ
        exact Ledger.eq_of_key hu ht0 (by rw [hQ.1, hid0])) (owes p')
    have howes : owes p' t0 = true ↔ p = p' := by simp [owes, hport0, hn0]
    simp only [howes] at hcount
    rw [released_outstanding, hi.credit p', ← hcount]
    exact Nat.add_sub_cancel _ _
  · intro p'
    rw [released_outstanding]
    exact (Nat.sub_le _ _).trans (hi.limit p')
  · intro t ht m hst
    exact hi.slaveID t (hmem ht) m hst
  · intro t ht o hst
    exact hi.routed t (hmem ht) o hst
  · intro t ht u hu o o' hst hsu
    exact hi.single t (hmem ht) u (hmem hu) o o' hst hsu
  · intro t ht p' hst
    exact hi.own t (hmem ht) p' hst

theorem inv_rewrite {q : ReqId} (hi : Inv s) (htr : Tracked s')
    (h : step s (.rewrite q r) = .ok s') : Inv s' := by
  cases h
  refine ⟨htr, hi.credit, hi.limit, ?_, hi.routed, hi.single, hi.own⟩
  intro t ht m hst
  have hold := hi.slaveID t ht m hst
  by_cases hreq : t.req = q
  · subst hreq
    simpa [rewritten, Bridge.setReq] using hold
  · simpa [rewritten, Bridge.setReq, hreq] using hold

theorem inv_step {e : Ev} (hi : Inv s) (he : enabled s e = true) (hf : Fits s e = true)
    (h : step s e = .ok s') : Inv s' := by
  have htr := tracked_step hi.toTracked he h
  cases e with
  | recvTimingReq p pkt => exact inv_recvTimingReq hi htr he hf h
  | trySendReq m answer => exact inv_trySendReq hi htr h
  | recvTimingResp pkt => exact inv_recvTimingResp hi htr he hf h
  | trySendResp p taken => exact inv_trySendResp hi htr h
  | rewrite q r => exact inv_rewrite hi htr h

theorem trySendResp_avoids (hi : Inv s) (he : enabled s (.trySendResp p taken) = true)
    {e : Fault} (h : trySendResp s.bridge p taken = .error e) : False := by
  have hl : (s.bridge.slave p).transmitList ≠ [] := by simpa [enabled] using he
  obtain ⟨pkt, hpkt⟩ := List.exists_mem_of_ne_nil _ hl
  obtain ⟨t, ht, -, hst⟩ := hi.resp p pkt hpkt
  obtain ⟨hport, hn⟩ := hi.own t ht p hst
  have hpos : 0 < s.ledger.count (owes p) := List.countP_pos_iff.2 ⟨_, ht, by simp [owes, hport, hn]⟩
  rw [← hi.credit p] at hpos
  rcases trySendResp_error h with h' | h'
  · exact hl h'
  · omega

end Preserved

/-! ## The discipline, and the runs that break it -/

theorem safe :
    machine.Safe (fun s e => Fits s e = true) Inv (· = .assertion .outstandingNonzero) := by
  constructor
  · rintro s ⟨d, n, k, req, rfl⟩
    exact inv_start d n k req
  · intro s e s' hi he hf h
    exact inv_step hi he hf h
  · rintro s e - hi he - h rfl
    obtain ⟨m, answer, -, hb⟩ | ⟨pkt, -, hf, -⟩ | ⟨p, taken, rfl, hb⟩ := step_error h (.inr ⟨_, rfl⟩)
    · rcases trySendReq_error hb with ⟨-, h'⟩ | ⟨_, _, _, _, h'⟩ <;> cases h'
    · cases hf
    · exact trySendResp_avoids hi he hb

/-- **Response-credit conservation.** Along every run whose steps all fit, each
port counts exactly the responses it owes, within its limit, on its own list,
and never gives back a slot it does not have. -/
theorem credit_conserved {x : Except Fault Sys}
    (hr : (machine.under fun s e => Fits s e = true).Reachable x) :
    (∀ s, x = .ok s → CreditOk s) ∧ x ≠ .error (.assertion .outstandingNonzero) := by
  obtain ⟨hinv, hfault⟩ := Machine.safe safe hr
  exact ⟨fun s hs => (hinv s hs).creditOk, fun hx => hfault _ hx rfl⟩

/-- A device read of host memory: accepted on slave_dma2, sent, answered. -/
def hostMemoryRead : List Ev :=
  [.recvTimingReq .dma2 { id := 0, req := 1, cmd := .readSharedReq, addr := 0xA0000000 },
   .trySendReq .dma (some { cxlPacketType := .cxlCachePacket }),
   .recvTimingResp { id := 0, req := 1, cmd := .readResp, addr := 0xA0000000 }]

theorem credit_conserved_host_memory_read :
    ∃ s, (machine.under fun s e => Fits s e = true).Reachable (.ok s) ∧
      (s.bridge.slave .dma2).outstandingResponses = 1 ∧
      (s.bridge.slave .dma2).transmitList.length = 1 ∧ CreditOk s := by
  have hrun := fun {x} => run_under (G := Fits) (d := withDevice .two) (n := 1) (k := 1) (x := x)
    (fun _ => { cxlPacketType := .cxlCachePacket }) hostMemoryRead
  exact ⟨_, hrun rfl, rfl, rfl, (credit_conserved (hrun rfl)).1 _ rfl⟩

/-- A host read of a line the filter says the device may hold: the upstream port
takes it to the device, which does not have the line and sends the read on to
host memory, through slave_dma2 and as a `CXLcacheH2DResp`. -/
def snoopMiss : List Ev :=
  let pkt : Packet := { id := 0, req := 1, cmd := .readSharedReq, addr := 0xA0000000 }
  [.recvTimingReq .slave pkt,
   .trySendReq (.root .two) (some { cxlPacketType := .cxlCacheH2DReq }),
   .rewrite 1 (Dcoh.memActionTiming { cxlPacketType := .cxlCacheH2DReq }),
   .recvTimingReq .dma2 { pkt with id := 1 },
   .trySendReq .dma (some { cxlPacketType := .cxlCacheH2DResp }),
   .recvTimingResp { pkt with id := 1, cmd := .readResp },
   .trySendResp .slave true]

/-- A coherence check of a device behind slave_dma1 that hits a dirty host line. -/
def checkFromPortOne : List Ev :=
  let pkt : Packet := { id := 0, req := 1, cmd := .readSharedReq, addr := 0x80000000 }
  let r : Request := Dcoh.makeCXLrequest pkt { cxlPacketType := .hostBiasCheck }
  [.rewrite 1 r,
   .recvTimingReq .dma1 pkt,
   .trySendReq .dma (some r),
   .recvTimingResp { pkt with cmd := .readResp, cacheResponding := true },
   .trySendResp .dma2 true]

/-- **Slots are not conserved.** After a snoop that misses in the device, every
list is empty and slave_dma2 still counts a response, while the upstream port
no longer counts the one it owes. And a coherence check that is not from
slave_dma2 fails the assertion that a port has a slot to give back. -/
theorem snoop_miss_leaks :
    (∃ s, machine.lts.Reachable (.ok s) ∧ (∀ p, (s.bridge.slave p).transmitList = []) ∧
      (∀ m, s.bridge.master m = []) ∧ (s.bridge.slave .dma2).outstandingResponses = 1 ∧
      (s.bridge.slave .slave).outstandingResponses = 0 ∧ ¬ CreditOk s) ∧
    machine.lts.Reachable (.error (.assertion .outstandingNonzero)) := by
  have hsnoop := fun {x} => run_reachable (d := withDevice .two) (n := 4) (k := 4) (x := x)
    (fun _ => { cxlPacketType := .cxlCacheH2DReq }) snoopMiss
  have hcheck := fun {x} => run_reachable (d := withDevice .one) (n := 4) (k := 4) (x := x)
    (fun _ => {}) checkFromPortOne
  refine ⟨⟨_, hsnoop rfl, ?_, ?_, rfl, rfl, ?_⟩, hcheck rfl⟩
  · intro p
    cases p <;> rfl
  · intro m
    rcases m with k | -
    · cases k <;> rfl
    · rfl
  · intro h
    exact absurd (h.credit .slave) (by decide)

end Gem5Cxl.L3.BridgeCredit
