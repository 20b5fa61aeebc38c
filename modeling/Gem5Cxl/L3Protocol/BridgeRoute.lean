import Gem5Cxl.L2Machine.Dcoh
import Gem5Cxl.L3Protocol.BridgeRuns

/-!
# Routing table of the PCI bridge

`routeTo` should hold a request exactly while a packet of it, of an ordinary
type, is on its way: sent by some master port and not answered. But a request is
entered by its type *after* the peer took the packet, and taken out by its type
when the response comes, and packets that need no response are entered too.
`RouteOk` is the discipline; `table_out_of_step` has the runs that break it:

* a device on the other side of the port turns a CXL.mem request into a
  `CXLcacheH2DResp` while it takes the packet (`memActionTiming`), so the request
  is not entered; its response is a CXL.mem one, and `recvTimingResp` follows an
  iterator at the end of the table;
* a write-back needs no response and is never taken out; sending its request
  again fails the assertion that the request is not in the table.

`routing_table_exact`: the discipline holds along every run in which nobody moves
a request into or out of the ordinary types while a packet of it is on its way,
and a request is sent only while no packet of it is on its way (`Keeps`).
-/
namespace Gem5Cxl.L3.BridgeRoute

open Core L1 L2 L2.ConfigSpace L2.PciBridge
open L3.BridgeRuns

/-- Sent as a packet of an ordinary type, and not answered. -/
def awaiting (t : Txn) : Bool :=
  match t.stage with
  | .inFlight o _ => o
  | _ => false

/-- The requests in `routeTo` are those of the packets that are on their way. -/
def RouteOk (s : Sys) : Prop :=
  ∀ q, (s.bridge.routeTo q).isSome = true ↔ ∃ t ∈ s.ledger, t.req = q ∧ awaiting t = true

/-- The faults of a table out of step: a request found there, or not found. -/
def Misrouted (e : Fault) : Prop := e = .assertion .routeToAbsent ∨ e = .endIterator

/-- The response of `t` may come with its request as `r`: it is of the two fixed
types exactly if `t` is not awaited in `routeTo`. -/
def keepsClass (t : Txn) (r : Request) : Bool :=
  fixedPort r.cxlPacketType = !awaiting t &&
    (r.cxlPacketType ≠ .hostBiasCheck || r.cxlDataAtomic2 = none)

/-- The head of `m`'s list may be sent, and its request left as `r`. -/
def sendable (s : Sys) (pkt : Packet) (r : Request) : Bool :=
  ordinary r.cxlPacketType = ordinary (s.bridge.req pkt.req).cxlPacketType &&
    s.ledger.entries.all fun t => t.req ≠ pkt.req || !awaiting t

/-- What the environment must keep to, step by step. -/
def Keeps (s : Sys) : Ev → Bool
  | .trySendReq m (some r) =>
    match s.bridge.master m with
    | pkt :: _ => sendable s pkt r
    | [] => true
  | .recvTimingResp pkt => s.ledger.entries.all fun t =>
      t.id ≠ pkt.id || keepsClass t (s.bridge.req pkt.req)
  | _ => true

/-! ## The invariant -/

structure Inv (s : Sys) : Prop extends Tracked s where
  keys : RouteOk s
  single : ∀ t ∈ s.ledger, ∀ u ∈ s.ledger, awaiting t = true → awaiting u = true →
    t.req = u.req → t = u

section Preserved

variable {s s' : Sys} {taken : Bool} {e : Fault} {m : MasterPort} {answer : Option Request}
  {p : SlavePort}

theorem inv_start (d : Decoder) (n k : Nat) (req : ReqId → Request) :
    Inv (Sys.start d n k req) := by
  refine ⟨tracked_start d n k req, ?_, ?_⟩
  · intro q
    simp [Sys.start]
  · intro t ht
    exact absurd ht (Ledger.not_mem_empty t)

/-- A step that leaves `routeTo` alone and adds or drops nothing that is awaited
keeps the table exact. -/
theorem inv_of_same (hi : Inv s) (htr : Tracked s') (hroute : s'.bridge.routeTo = s.bridge.routeTo)
    (hmem : ∀ t, awaiting t = true → (t ∈ s'.ledger ↔ t ∈ s.ledger)) : Inv s' := by
  refine ⟨htr, ?_, ?_⟩
  · intro q
    rw [hroute, hi.keys q]
    exact exists_congr fun t => and_congr_left fun h => (hmem t h.2).symm
  · intro t ht u hu hat hau
    exact hi.single t ((hmem t hat).mp ht) u ((hmem u hau).mp hu) hat hau

variable {pkt : Packet}

theorem inv_recvTimingReq (hi : Inv s) (htr : Tracked s')
    (he : enabled s (.recvTimingReq p pkt) = true)
    (h : step s (.recvTimingReq p pkt) = .ok s') : Inv s' := by
  obtain ⟨r, -, rfl | ⟨m, -, rfl⟩⟩ := step_recvTimingReq h
  · exact inv_of_same hi htr rfl fun t _ => .rfl
  · refine inv_of_same hi htr rfl fun t ha => ?_
    rw [Ledger.mem_record (fresh_of_enabled he)]
    refine ⟨fun ht => ht.resolve_right ?_, .inl⟩
    rintro rfl
    cases ha

theorem mem_amend_awaiting (stage : Stage) {t t0 : Txn} (ht0 : t0 ∈ s.ledger)
    (hid0 : t0.id = pkt.id) (hn : awaiting { t0 with stage } = false) (ha : awaiting t = true) :
    t ∈ s.ledger.amend (toStage pkt.id stage) (toStage_id _ _) ↔ t ∈ s.ledger ∧ t.id ≠ pkt.id := by
  refine ⟨fun ht => (mem_amend_cases _ ht0 hid0 ht).resolve_right ?_, fun ht => mem_amend_of_ne ht.1 ht.2⟩
  rintro rfl
  cases hn.symm.trans ha

theorem inv_trySendReq (hi : Inv s) (htr : Tracked s')
    (hk : Keeps s (.trySendReq m answer) = true) (h : step s (.trySendReq m answer) = .ok s') :
    Inv s' := by
  obtain rfl | ⟨pkt, rest, r, hm, rfl, hroute, rfl⟩ := step_trySendReq h
  · exact hi
  obtain ⟨t0, ht0, hid0, hreq0, -, hst0⟩ := hi.req m pkt (by rw [hm]; exact List.mem_cons_self)
  have hord : ordinary r.cxlPacketType = ordinary (s.bridge.req pkt.req).cxlPacketType := by
    simp only [Keeps, hm, sendable, Bool.and_eq_true, decide_eq_true_eq] at hk
    exact hk.1
  have hne0 : ∀ t ∈ s.ledger, awaiting t = true → t.id ≠ pkt.id :=
    fun t ht ha => id_ne ht0 hid0 ht (by rintro rfl; simp [awaiting, hst0] at ha)
  -- nothing of this request is in the table, so nothing of it is on its way
  have hother : ∀ t ∈ s.ledger, awaiting t = true → t.req ≠ pkt.req := by
    intro t ht ha heq
    have hsome := (hi.keys t.req).mpr ⟨t, ht, rfl, ha⟩
    rw [heq, hroute] at hsome
    cases hsome
  by_cases ho : ordinary r.cxlPacketType = true
  · -- entered, and on its way from now on
    have ho' : ordinary (s.bridge.req pkt.req).cxlPacketType = true := hord ▸ ho
    simp only [ho, ho'] at htr ⊢
    have hmem := fun {t} => mem_amend_cases (.inFlight true true) (t := t) ht0 hid0
    refine ⟨htr, ?_, ?_⟩
    · intro q
      by_cases hq : q = pkt.req
      · subst hq
        simp only [sent, ho, if_true, Function.update_self, Option.isSome_some, true_iff]
        exact ⟨_, mem_amend_of_id ht0 hid0, hreq0, rfl⟩
      · simp only [sent, ho, if_true, Function.update_of_ne hq]
        rw [hi.keys q]
        refine exists_congr fun t => and_congr_left fun h =>
          ⟨fun ht => mem_amend_of_ne ht (hne0 t ht h.2), fun ht => (hmem ht).elim And.left ?_⟩
        rintro rfl
        exact absurd (h.1.symm.trans hreq0) hq
    · refine forall_amend ht0 hid0 (fun t ht => ?_) (forall_amend ht0 hid0 (fun u hu hat hau hreq => ?_) ?_)
      · refine forall_amend ht0 hid0 (hi.single t ht) fun hat _ hreq => ?_
        exact absurd (hreq.trans hreq0) (hother t ht hat)
      · exact absurd (hreq.symm.trans hreq0) (hother u hu hau)
      · exact fun _ _ _ => rfl
  · -- not entered, and not awaited there
    rw [Bool.not_eq_true] at ho
    have ho' : ordinary (s.bridge.req pkt.req).cxlPacketType = false := hord ▸ ho
    simp only [ho, ho'] at htr ⊢
    refine inv_of_same hi htr (by simp [sent, ho]) fun t ha => ?_
    rw [mem_amend_awaiting _ ht0 hid0 rfl ha, and_iff_left_iff_imp]
    exact fun ht => hne0 t ht ha

/-- The guard on responses, read off for the packet that is answered. -/
theorem keepsClass_of_keeps (hk : Keeps s (.recvTimingResp pkt) = true) {t : Txn}
    (ht : t ∈ s.ledger) (hid : t.id = pkt.id) :
    fixedPort (s.bridge.req pkt.req).cxlPacketType = !awaiting t ∧
      ((s.bridge.req pkt.req).cxlPacketType = .hostBiasCheck →
        (s.bridge.req pkt.req).cxlDataAtomic2 = none) := by
  simp only [Keeps, List.all_eq_true] at hk
  have h := hk t ht
  simp only [hid, ne_eq, not_true_eq_false, decide_false, Bool.false_or, keepsClass,
    Bool.and_eq_true, decide_eq_true_eq, Bool.or_eq_true] at h
  exact ⟨h.1, fun hty => h.2.resolve_left (fun hne => hne hty)⟩

theorem inv_recvTimingResp (hi : Inv s) (htr : Tracked s')
    (he : enabled s (.recvTimingResp pkt) = true) (hk : Keeps s (.recvTimingResp pkt) = true)
    (h : step s (.recvTimingResp pkt) = .ok s') : Inv s' := by
  obtain ⟨t0, ht0, hid0, hreq0, -⟩ := inFlight_of_enabled he
  obtain ⟨p, r, -, hr, rfl⟩ := step_recvTimingResp h
  obtain ⟨hclass, hdata⟩ := keepsClass_of_keeps hk ht0 hid0
  have hfix : fixedPort r.cxlPacketType = !awaiting t0 := by
    rw [respMessage_fixedPort hr hdata, hclass]
  have hmem := fun {t} => mem_amend_awaiting (.answered p) (t := t) ht0 hid0 rfl
  by_cases ha0 : awaiting t0 = true
  · -- awaited: the request is taken out, and no other packet of it is on its way
    have hne : ∀ t ∈ s.ledger, awaiting t = true → t.id ≠ pkt.id → t.req ≠ pkt.req := by
      intro t ht ha hid heq
      obtain rfl := hi.single t ht t0 ht0 ha ha0 (heq.trans hreq0.symm)
      exact hid hid0
    refine ⟨htr, ?_, ?_⟩
    · intro q
      by_cases hq : q = pkt.req
      · subst hq
        simp only [queued, hfix, ha0, Bool.not_true, Bool.false_eq_true, if_false,
          Function.update_self, Option.isSome_none, false_iff]
        rintro ⟨t, ht, hreq, ha⟩
        obtain ⟨ht, hid⟩ := (hmem ha).1 ht
        exact hne t ht ha hid hreq
      · simp only [queued, hfix, ha0, Bool.not_true, Bool.false_eq_true, if_false,
          Function.update_of_ne hq]
        rw [hi.keys q]
        refine exists_congr fun t => and_congr_left fun h => ?_
        rw [hmem h.2, iff_self_and]
        exact fun ht => id_ne ht0 hid0 ht (by rintro rfl; exact hq (h.1.symm.trans hreq0))
    · exact forall_amend ht0 hid0 (fun t ht => forall_amend ht0 hid0 (hi.single t ht) (by simp [awaiting])) (by simp [awaiting])
  · refine inv_of_same hi htr (by simp [queued, hfix, ha0]) fun t ha => ?_
    rw [hmem ha, and_iff_left_iff_imp]
    exact fun ht => id_ne ht0 hid0 ht (by rintro rfl; exact ha0 ha)

theorem inv_trySendResp (hi : Inv s) (htr : Tracked s')
    (h : step s (.trySendResp p taken) = .ok s') : Inv s' := by
  obtain rfl | ⟨pkt, rest, hl, rfl⟩ := step_trySendResp h
  · exact hi
  obtain ⟨t0, ht0, hid0, hst0⟩ := hi.resp p pkt (by rw [hl]; exact List.mem_cons_self)
  refine inv_of_same hi htr rfl fun t ha => ?_
  rw [Ledger.mem_discard]
  refine ⟨fun ht => ht.1, fun ht => ⟨ht, ?_⟩⟩
  -- the entry that is closed was answered, so not awaited
  have hid : t.id ≠ pkt.id := id_ne ht0 hid0 ht (by rintro rfl; simp [awaiting, hst0] at ha)
  simp [hid]

theorem inv_step {e : Ev} (hi : Inv s) (he : enabled s e = true) (hk : Keeps s e = true)
    (h : step s e = .ok s') : Inv s' := by
  have htr := tracked_step hi.toTracked he h
  cases e with
  | recvTimingReq p pkt => exact inv_recvTimingReq hi htr he h
  | trySendReq m answer => exact inv_trySendReq hi htr hk h
  | recvTimingResp pkt => exact inv_recvTimingResp hi htr he hk h
  | trySendResp p taken => exact inv_trySendResp hi htr h
  | rewrite q r =>
    cases h
    exact inv_of_same hi htr rfl fun t _ => .rfl

/-! ## The table is never out of step -/

theorem trySendResp_misrouted {b : Bridge} (h : trySendResp b p taken = .error e) :
    ¬ Misrouted e := by
  unfold trySendResp at h
  split at h
  · cases h; simp [Misrouted]
  · cases h
  · split at h
    · cases h; simp [Misrouted]
    · cases h

theorem trySendReq_routed (hi : Inv s)
    (he : enabled s (.trySendReq m answer) = true) (hk : Keeps s (.trySendReq m answer) = true)
    (h : trySendReq s.bridge m answer = .error e) : False := by
  have hm : s.bridge.master m ≠ [] := by simpa [enabled] using he
  rcases trySendReq_error h with ⟨h', -⟩ | ⟨pkt, rest, hm', hsome, -⟩
  · exact hm h'
  · obtain ⟨t, ht, hreq, ha⟩ := (hi.keys pkt.req).mp hsome
    cases answer with
    | none => simp [trySendReq, hm'] at h
    | some r =>
      simp only [Keeps, hm', sendable, Bool.and_eq_true, List.all_eq_true] at hk
      simpa [hreq, ha] using hk.2 t ht

theorem recvTimingResp_routed (hi : Inv s)
    (he : enabled s (.recvTimingResp pkt) = true) (hk : Keeps s (.recvTimingResp pkt) = true)
    (hroute : s.bridge.routeTo pkt.req = none)
    (hneeds : fixedPort (s.bridge.req pkt.req).cxlPacketType = false ∨
      ∃ r, respMessage pkt (s.bridge.req pkt.req) = .ok r ∧
        fixedPort r.cxlPacketType = false) : False := by
  obtain ⟨t0, ht0, hid0, hreq0, -⟩ := inFlight_of_enabled he
  obtain ⟨hclass, hdata⟩ := keepsClass_of_keeps hk ht0 hid0
  have hfix : fixedPort (s.bridge.req pkt.req).cxlPacketType = false := by
    rcases hneeds with h | ⟨r, hr, h⟩
    · exact h
    · rw [← respMessage_fixedPort hr hdata]
      exact h
  have ha : awaiting t0 = true := by simpa [hfix] using hclass
  have hsome := (hi.keys pkt.req).mpr ⟨t0, ht0, hreq0, ha⟩
  rw [hroute] at hsome
  cases hsome

end Preserved

theorem safe : machine.Safe (fun s e => Keeps s e = true) Inv Misrouted := by
  constructor
  · rintro s ⟨d, n, k, req, rfl⟩
    exact inv_start d n k req
  · intro s e s' hi he hk h
    exact inv_step hi he hk h
  · intro s e f hi he hk h hbad
    have hbook : Bookkeeping f := by
      rcases hbad with rfl | rfl
      · exact .inr ⟨_, rfl⟩
      · exact .inl rfl
    obtain ⟨m, answer, rfl, hb⟩ | ⟨pkt, rfl, -, hroute, hneeds⟩ | ⟨p, taken, -, hb⟩ := step_error h hbook
    · exact trySendReq_routed hi he hk hb
    · exact recvTimingResp_routed hi he hk hroute hneeds
    · exact trySendResp_misrouted hb hbad

/-- **Routing-table discipline.** Along every run whose steps all keep to it, the
requests in `routeTo` are those of the packets on their way, and no call finds a
request there, or misses one, when it should not. -/
theorem routing_table_exact {x : Except Fault Sys}
    (hr : (machine.under fun s e => Keeps s e = true).Reachable x) :
    (∀ s, x = .ok s → RouteOk s) ∧ ∀ e, x = .error e → ¬ Misrouted e := by
  obtain ⟨hinv, hfault⟩ := Machine.safe safe hr
  exact ⟨fun s hs => (hinv s hs).keys, hfault⟩

/-! ## Runs -/

/-- A host read of CXL memory, as the home agent sends it. -/
def hostRead : Packet := { id := 0, req := 1, cmd := .readSharedReq, addr := 0x80000000 }

def memRd : Request := (HomeAgent.makeCXLPacket hostRead {}).getD {}

/-- The read's request when the device sends its response. -/
def memRdAnswered : Request :=
  match Dcoh.recvTimingResp hostRead (Dcoh.memActionTiming memRd) (fun _ => none) with
  | .ok (_, r, _) => r
  | .error _ => {}

/-- A link takes the read and the device answers it later; then the request is
used for the same read again. -/
theorem routing_table_exact_host_read :
    ∃ s, (machine.under fun s e => Keeps s e = true).Reachable (.ok s) ∧
      (s.bridge.routeTo 1).isSome = true ∧ RouteOk s := by
  have hrun := fun {x} => run_under (G := Keeps) (d := withDevice .two) (n := 1) (k := 1)
    (x := x) (fun _ => {})
    [.recvTimingReq .slave hostRead, .trySendReq (.root .two) (some memRd),
      .rewrite 1 (Dcoh.memActionTiming memRd), .rewrite 1 memRdAnswered,
      .recvTimingResp hostRead, .trySendResp .slave true,
      .recvTimingReq .slave hostRead, .trySendReq (.root .two) (some memRd)]
  exact ⟨_, hrun rfl, rfl, (routing_table_exact (hrun rfl)).1 _ rfl⟩

/-- A write-back from the device to host memory. -/
def writeback (i : Nat) : Packet :=
  { id := i, req := 1, cmd := .writebackDirty, addr := 0xA0000000 }

/-- **The table out of step.** A device without a link in between changes the
type of a host read while it takes it: the read is on its way and not in
`routeTo`, and its response follows the end of the table. A write-back needs no
response and stays in `routeTo`: sending its request once more fails the assertion. -/
theorem table_out_of_step :
    (∃ s, machine.lts.Reachable (.ok s) ∧ ¬ RouteOk s) ∧
    machine.lts.Reachable (.error .endIterator) ∧
    machine.lts.Reachable (.error (.assertion .routeToAbsent)) := by
  have hrun := fun ls {x} => run_reachable (d := withDevice .two) (n := 4) (k := 4) (x := x)
    (fun _ => { cxlPacketType := .cxlCachePacket }) ls
  refine ⟨⟨_, hrun [.recvTimingReq .slave hostRead,
      .trySendReq (.root .two) (some (Dcoh.memActionTiming memRd))] rfl, ?_⟩,
    hrun [.recvTimingReq .slave hostRead,
      .trySendReq (.root .two) (some (Dcoh.memActionTiming memRd)),
      .rewrite 1 memRdAnswered, .recvTimingResp hostRead] rfl,
    hrun [.recvTimingReq .dma2 (writeback 0),
      .trySendReq .dma (some { cxlPacketType := .cxlCachePacket }),
      .recvTimingReq .dma2 (writeback 1),
      .trySendReq .dma (some { cxlPacketType := .cxlCachePacket })] rfl⟩
  intro h
  have hsome := (h 1).mpr ⟨⟨0, 1, .slave, true, .inFlight true false⟩,
    List.mem_singleton.mpr rfl, rfl, rfl⟩
  cases hsome

end Gem5Cxl.L3.BridgeRoute
