import Gem5Cxl.Core.Ledger
import Gem5Cxl.L2Machine.PciBridge

/-!
# Runs of the PCI bridge

The bridge under any interleaving of its port functions. The environment offers
requests on the slave ports, takes or refuses what the bridge sends, returns
responses, and changes the CXL fields of a request at any time: the same
request is also in the hands of the device, the caches and the other crossbars.

Next to the bridge runs a ledger with one entry for each packet it has accepted.
The ledger is what the counters and tables of the bridge are *meant* to say;
no function of the bridge reads it. An entry goes through

* `queued m`: on the list of master port `m`;
* `inFlight ordinary entered`: sent. `ordinary` says whether the packet was of an
  ordinary type when it was handed to the peer, `entered` whether it was so once
  the peer had taken it, which is what decides whether `routeTo` has it;
* `answered p`: its response is on the list of slave port `p`;

and is closed when the port that accepted it has sent its response.

`Tracked` holds along every run: whatever is on a list of the bridge has its
entry, and nothing is on the lists twice.
-/
namespace Gem5Cxl.L3.BridgeRuns

open Core L1 L2 L2.ConfigSpace L2.PciBridge List Ledger

inductive Stage
  | queued (m : MasterPort)
  | inFlight (ordinary entered : Bool)
  | answered (p : SlavePort)
deriving DecidableEq, Repr

/-- One packet the bridge has accepted, on `port`. -/
structure Txn where
  id : Nat
  req : ReqId
  port : SlavePort
  needsResponse : Bool
  stage : Stage
deriving DecidableEq, Repr

def Txn.isQueued (t : Txn) : Bool :=
  match t.stage with
  | .queued _ => true
  | _ => false

def Txn.isInFlight (t : Txn) : Bool :=
  match t.stage with
  | .inFlight _ _ => true
  | _ => false

/-- Move the entry `i` to `stage`. -/
def toStage (i : Nat) (stage : Stage) (t : Txn) : Txn :=
  if t.id = i then { t with stage := stage } else t

theorem toStage_id (i : Nat) (stage : Stage) (t : Txn) : (toStage i stage t).id = t.id := by
  unfold toStage; split <;> rfl

theorem toStage_port (i : Nat) (stage : Stage) (t : Txn) : (toStage i stage t).port = t.port := by
  unfold toStage; split <;> rfl

theorem toStage_needsResponse (i : Nat) (stage : Stage) (t : Txn) :
    (toStage i stage t).needsResponse = t.needsResponse := by
  unfold toStage; split <;> rfl

variable {i : Nat} {stage : Stage} {t : Txn} (req : ReqId → Request)

theorem toStage_of_id (h : t.id = i) : toStage i stage t = { t with stage := stage } := if_pos h

theorem toStage_of_ne (h : t.id ≠ i) : toStage i stage t = t := if_neg h

structure Sys where
  bridge : Bridge
  ledger : Ledger Txn.id

/-- An idle bridge, with any configuration, any limits and any requests around. -/
def Sys.start (d : Decoder) (reqQueueLimit respQueueLimit : Nat) (req : ReqId → Request) : Sys :=
  { bridge := { decoder := d, reqQueueLimit, respQueueLimit, req }
    ledger := .empty }

inductive Ev
  /-- A packet is offered to slave port `p`. -/
  | recvTimingReq (p : SlavePort) (pkt : Packet)
  /-- Master port `m` sends; the peer refuses, or takes the packet and leaves
  its request as given. -/
  | trySendReq (m : MasterPort) (answer : Option Request)
  /-- A response arrives. -/
  | recvTimingResp (pkt : Packet)
  /-- Slave port `p` sends a response; the peer takes it or not. -/
  | trySendResp (p : SlavePort) (taken : Bool)
  /-- Somebody else changes the fields of a request. -/
  | rewrite (q : ReqId) (r : Request)

/-- What the environment can do: it hands over packets under new ids, answers
only packets it was sent and that need a response, and a send is tried only
while there is something to send. -/
def enabled (s : Sys) : Ev → Bool
  | .recvTimingReq _ pkt => s.ledger.entries.all fun t => t.id ≠ pkt.id
  | .trySendReq m _ => s.bridge.master m ≠ []
  | .recvTimingResp pkt => s.ledger.entries.any fun t =>
      t.id = pkt.id && t.req = pkt.req && t.isInFlight && t.needsResponse
  | .trySendResp p _ => (s.bridge.slave p).transmitList ≠ []
  | .rewrite _ _ => true

def opened (p : SlavePort) (m : MasterPort) (pkt : Packet) : Txn :=
  { id := pkt.id, req := pkt.req, port := p, needsResponse := pkt.needsResponse
    stage := .queued m }

/-- The bridge's own entry of `pciBridgeSlaveIDs` is left alone by others. -/
def rewritten (b : Bridge) (q : ReqId) (r : Request) : Bridge :=
  b.setReq q { r with pciBridgeSlaveID := (b.req q).pciBridgeSlaveID }

/-- The ledger when the head of `m`'s list is sent. -/
def sentLedger (s : Sys) (m : MasterPort) (answer : Option Request) : Ledger Txn.id :=
  match s.bridge.master m, answer with
  | pkt :: _, some r =>
    s.ledger.amend (toStage pkt.id (.inFlight (ordinary (s.bridge.req pkt.req).cxlPacketType)
      (ordinary r.cxlPacketType))) (toStage_id _ _)
  | _, _ => s.ledger

/-- The ledger when `p` sends the head of its responses: an entry of another
port stays open, since that port has not sent its response. -/
def releasedLedger (s : Sys) (p : SlavePort) (taken : Bool) : Ledger Txn.id :=
  match (s.bridge.slave p).transmitList, taken with
  | pkt :: _, true => s.ledger.discard fun t => t.id = pkt.id && t.port = p
  | _, _ => s.ledger

def step (s : Sys) : Ev → Except Fault Sys
  | .recvTimingReq p pkt => do
    let (b, o) ← recvTimingReq s.bridge p pkt
    match o with
    | none => .ok { s with bridge := b }
    | some m => .ok { bridge := b, ledger := s.ledger.record (opened p m pkt) }
  | .trySendReq m answer => do
    let b ← trySendReq s.bridge m answer
    .ok { bridge := b, ledger := sentLedger s m answer }
  | .recvTimingResp pkt => do
    let p ← respPort s.bridge pkt.req (s.bridge.req pkt.req).cxlPacketType
    let b ← recvTimingResp s.bridge pkt
    .ok { bridge := b, ledger := s.ledger.amend (toStage pkt.id (.answered p)) (toStage_id _ _) }
  | .trySendResp p taken => do
    let b ← trySendResp s.bridge p taken
    .ok { bridge := b, ledger := releasedLedger s p taken }
  | .rewrite q r => .ok { s with bridge := rewritten s.bridge q r }

def machine : Machine Sys Ev Fault where
  init s := ∃ d n k req, s = Sys.start d n k req
  enabled s e := enabled s e = true
  step := step

variable {d : Decoder} {x : Except Fault Sys}

theorem run_under {G : Sys → Ev → Bool} {n k : Nat} (ls : List Ev)
    (h : machine.runs (fun s e => enabled s e && G s e) (.ok (Sys.start d n k req)) ls = some x) :
    (machine.under fun s e => G s e = true).Reachable x := by
  refine Machine.under_runs _ (fun s e hok => ?_) ls (Machine.under_init ⟨d, n, k, req, rfl⟩) h
  exact Bool.and_eq_true_iff.mp hok

theorem run_reachable {n k : Nat} (ls : List Ev)
    (h : machine.runs enabled (.ok (Sys.start d n k req)) ls = some x) :
    machine.lts.Reachable x :=
  Machine.lts_runs enabled (fun _ _ he => he) ls (Machine.lts_init ⟨d, n, k, req, rfl⟩) h

variable {taken : Bool} {e : Ev} {m : MasterPort} {answer : Option Request} {pkt : Packet}
  {p : SlavePort}

/-! ## What a step does -/

section Steps

variable {s s' : Sys}

theorem step_recvTimingReq (h : step s (.recvTimingReq p pkt) = .ok s') :
    ∃ r : Request, r.pciBridgeSlaveID = p ∧
      (s' = { s with bridge := refused s.bridge p pkt.req r } ∨
       ∃ m, (pkt.needsResponse = true →
          (s.bridge.slave p).outstandingResponses ≠ s.bridge.respQueueLimit) ∧
        s' = { bridge := accepted s.bridge p m pkt r, ledger := s.ledger.record (opened p m pkt) }) := by
  obtain ⟨⟨b, o⟩, hb, h⟩ := bind_eq_ok.mp h
  obtain ⟨r, hr, ⟨rfl, rfl⟩ | ⟨m, rfl, hroom, rfl⟩⟩ := recvTimingReq_ok hb
  · cases h
    exact ⟨r, hr, .inl rfl⟩
  · cases h
    exact ⟨r, hr, .inr ⟨m, hroom, rfl⟩⟩

theorem step_trySendReq (h : step s (.trySendReq m answer) = .ok s') :
    s' = s ∨ ∃ pkt rest r, s.bridge.master m = pkt :: rest ∧ answer = some r ∧
      s.bridge.routeTo pkt.req = none ∧
      s' = { bridge := sent s.bridge m pkt rest r
             ledger := s.ledger.amend (toStage pkt.id
               (.inFlight (ordinary (s.bridge.req pkt.req).cxlPacketType)
                 (ordinary r.cxlPacketType))) (toStage_id _ _) } := by
  obtain ⟨b, hb, h⟩ := bind_eq_ok.mp h
  cases h
  obtain ⟨pkt, rest, hm, ⟨rfl, rfl⟩ | ⟨r, rfl, hroute, rfl⟩⟩ := trySendReq_ok hb
  · left
    simp only [sentLedger, hm]
  · right
    refine ⟨pkt, rest, r, hm, rfl, hroute, ?_⟩
    simp only [sentLedger, hm]

theorem step_recvTimingResp (h : step s (.recvTimingResp pkt) = .ok s') :
    ∃ p r, respPort s.bridge pkt.req (s.bridge.req pkt.req).cxlPacketType = .ok p ∧
      respMessage pkt (s.bridge.req pkt.req) = .ok r ∧
      s' = { bridge := queued s.bridge p pkt r
             ledger := s.ledger.amend (toStage pkt.id (.answered p)) (toStage_id _ _) } := by
  obtain ⟨p, hp, h⟩ := bind_eq_ok.mp h
  obtain ⟨b, hb, h⟩ := bind_eq_ok.mp h
  cases h
  obtain ⟨p', r, hp', hr, rfl⟩ := recvTimingResp_ok hb
  obtain rfl : p = p' := by
    rw [hp] at hp'
    cases hp'
    rfl
  exact ⟨p, r, hp, hr, rfl⟩

theorem step_trySendResp (h : step s (.trySendResp p taken) = .ok s') :
    s' = s ∨ ∃ pkt rest, (s.bridge.slave p).transmitList = pkt :: rest ∧
      s' = { bridge := released s.bridge p rest
             ledger := s.ledger.discard fun t => t.id = pkt.id && t.port = p } := by
  obtain ⟨b, hb, h⟩ := bind_eq_ok.mp h
  cases h
  obtain ⟨pkt, rest, hl, ⟨rfl, rfl⟩ | ⟨rfl, rfl⟩⟩ := trySendResp_ok hb
  · left
    simp only [releasedLedger, hl]
  · right
    refine ⟨pkt, rest, hl, ?_⟩
    simp only [releasedLedger, hl]

theorem step_error {f : Fault} (h : step s e = .error f) (hbook : Bookkeeping f) :
    (∃ m answer, e = .trySendReq m answer ∧ trySendReq s.bridge m answer = .error f) ∨
    (∃ pkt, e = .recvTimingResp pkt ∧ f = .endIterator ∧ s.bridge.routeTo pkt.req = none ∧
      (fixedPort (s.bridge.req pkt.req).cxlPacketType = false ∨
        ∃ r, respMessage pkt (s.bridge.req pkt.req) = .ok r ∧ fixedPort r.cxlPacketType = false)) ∨
    ∃ p taken, e = .trySendResp p taken ∧ trySendResp s.bridge p taken = .error f := by
  cases e with
  | recvTimingReq p pkt =>
    refine (Avoids.bind (avoids_recvTimingReq s.bridge p pkt) (fun ⟨b, o⟩ _ => ?_) _ h hbook).elim
    cases o <;> exact .ok _
  | trySendReq m answer =>
    obtain hb | ⟨b, -, h⟩ := bind_eq_error.mp h
    · exact .inl ⟨m, answer, rfl, hb⟩
    · cases h
  | recvTimingResp pkt =>
    refine .inr (.inl ⟨pkt, rfl, ?_⟩)
    obtain hp | ⟨p, -, h⟩ := bind_eq_error.mp h
    · obtain ⟨rfl, hroute, hfix⟩ := respPort_error hp
      exact ⟨rfl, hroute, .inl hfix⟩
    · obtain hb | ⟨b, -, h⟩ := bind_eq_error.mp h
      · exact recvTimingResp_fault hb hbook
      · cases h
  | trySendResp p taken =>
    obtain hb | ⟨b, -, h⟩ := bind_eq_error.mp h
    · exact .inr (.inr ⟨p, taken, rfl, hb⟩)
    · cases h
  | rewrite q r => cases h

end Steps

/-! ## Everything on a list has its entry -/

structure Tracked (s : Sys) : Prop where
  req : ∀ m, ∀ pkt ∈ s.bridge.master m, ∃ t ∈ s.ledger, t.id = pkt.id ∧ t.req = pkt.req ∧
    t.needsResponse = pkt.needsResponse ∧ t.stage = .queued m
  reqIds : ∀ m, ((s.bridge.master m).map Packet.id).Nodup
  resp : ∀ p, ∀ pkt ∈ (s.bridge.slave p).transmitList, ∃ t ∈ s.ledger, t.id = pkt.id ∧
    t.stage = .answered p
  respIds : ∀ p, ((s.bridge.slave p).transmitList.map Packet.id).Nodup

theorem fresh_of_enabled {s : Sys} (h : enabled s (.recvTimingReq p pkt) = true) :
    ∀ t ∈ s.ledger, t.id ≠ pkt.id := by
  simpa [enabled, mem_def] using h

theorem inFlight_of_enabled {s : Sys} (h : enabled s (.recvTimingResp pkt) = true) :
    ∃ t ∈ s.ledger, t.id = pkt.id ∧ t.req = pkt.req ∧ t.needsResponse = true ∧
      ∃ o e, t.stage = .inFlight o e := by
  simp only [enabled, any_eq_true, Bool.and_eq_true, decide_eq_true_eq] at h
  obtain ⟨t, ht, ⟨⟨hid, hreq⟩, hfl⟩, hn⟩ := h
  refine ⟨t, ht, hid, hreq, hn, ?_⟩
  unfold Txn.isInFlight at hfl
  split at hfl
  · rename_i o e hs
    exact ⟨o, e, hs⟩
  · cases hfl

theorem nodup_snoc {l : List Packet} (h : (l.map Packet.id).Nodup)
    (hn : ∀ x ∈ l, x.id ≠ pkt.id) : ((l ++ [pkt]).map Packet.id).Nodup := by
  rw [map_append, nodup_append]
  refine ⟨h, by simp, ?_⟩
  intro i hi j hj
  obtain ⟨x, hx, rfl⟩ := mem_map.mp hi
  simp only [map_cons, map_nil, mem_singleton] at hj
  rw [hj]
  exact hn x hx

theorem mem_pushed {α β : Type} [DecidableEq α] {f : α → List β} {a b : α} {x y : β} :
    (x ∈ if b = a then f a ++ [y] else f b) ↔ x ∈ f b ∨ b = a ∧ x = y := by
  by_cases h : b = a <;> simp [h]

theorem mem_popped {α β : Type} [DecidableEq α] {f : α → List β} {a b : α} {x y : β} {l : List β}
    (ha : f a = y :: l) (hx : x ∈ if b = a then l else f b) : x ∈ f b ∧ (b = a → x ∈ l) := by
  split at hx
  · rename_i h
    rw [h, ha]
    exact ⟨mem_cons_of_mem _ hx, fun _ => hx⟩
  · rename_i h
    exact ⟨hx, fun hb => absurd hb h⟩

section Preserved

variable {s s' : Sys}

theorem tracked_start (d : Decoder) (n k : Nat) (req : ReqId → Request) :
    Tracked (Sys.start d n k req) := by
  constructor <;> simp [Sys.start]

theorem tracked_recvTimingReq (hi : Tracked s) (he : enabled s (.recvTimingReq p pkt) = true)
    (h : step s (.recvTimingReq p pkt) = .ok s') : Tracked s' := by
  have hfresh := fresh_of_enabled he
  obtain ⟨r, -, rfl | ⟨m, -, rfl⟩⟩ := step_recvTimingReq h
  · exact ⟨hi.req, hi.reqIds, by simpa using hi.resp, by simpa using hi.respIds⟩
  · have hold : ∀ t ∈ s.ledger, t ∈ s.ledger.record (opened p m pkt) :=
      fun t ht => (mem_record hfresh).mpr (.inl ht)
    refine ⟨?_, ?_, ?_, by simpa using hi.respIds⟩
    · intro m' x hx
      rw [accepted_master] at hx
      rcases mem_pushed.1 hx with hx' | ⟨rfl, rfl⟩
      · obtain ⟨t, ht, h'⟩ := hi.req m' x hx'
        exact ⟨t, hold t ht, h'⟩
      · exact ⟨opened p m' x, (mem_record hfresh).mpr (.inr rfl), rfl, rfl, rfl, rfl⟩
    · intro m'
      simp only [accepted_master]
      split
      · refine nodup_snoc (hi.reqIds m) fun x hx => ?_
        obtain ⟨t, ht, hid, -⟩ := hi.req m x hx
        exact hid ▸ hfresh t ht
      · exact hi.reqIds m'
    · intro p' x hx
      rw [accepted_transmitList] at hx
      obtain ⟨t, ht, h'⟩ := hi.resp p' x hx
      exact ⟨t, hold t ht, h'⟩

/-- Moving one entry on does not touch the entries of the packets that are not
of that entry. -/
theorem mem_amend_of_ne (ht : t ∈ s.ledger) (h : t.id ≠ i) :
    t ∈ s.ledger.amend (toStage i stage) (toStage_id i stage) :=
  mem_amend.mpr ⟨t, ht, toStage_of_ne h⟩

theorem mem_amend_of_id (ht : t ∈ s.ledger) (h : t.id = i) :
    { t with stage := stage } ∈ s.ledger.amend (toStage i stage) (toStage_id i stage) :=
  mem_amend.mpr ⟨t, ht, toStage_of_id h⟩

theorem mem_amend_cases (stage : Stage) {t0 : Txn} (ht0 : t0 ∈ s.ledger)
    (hid0 : t0.id = i) (ht : t ∈ s.ledger.amend (toStage i stage) (toStage_id i stage)) :
    (t ∈ s.ledger ∧ t.id ≠ i) ∨ t = { t0 with stage := stage } := by
  obtain ⟨u, hu, rfl⟩ := mem_amend.mp ht
  by_cases hid : u.id = i
  · obtain rfl := eq_of_key hu ht0 (by rw [hid, hid0])
    exact .inr (toStage_of_id hid)
  · rw [toStage_of_ne hid]
    exact .inl ⟨hu, hid⟩

theorem forall_amend {P : Txn → Prop} {t0 : Txn} (ht0 : t0 ∈ s.ledger) (hid0 : t0.id = i)
    (h : ∀ t ∈ s.ledger, P t)
    (h0 : P { t0 with stage := stage }) :
    ∀ t ∈ s.ledger.amend (toStage i stage) (toStage_id i stage), P t := by
  intro t ht
  rcases mem_amend_cases stage ht0 hid0 ht with ⟨ht, -⟩ | rfl
  · exact h t ht
  · exact h0

theorem id_ne {t0 : Txn} (ht0 : t0 ∈ s.ledger) (hid0 : t0.id = i) (ht : t ∈ s.ledger)
    (hne : t ≠ t0) : t.id ≠ i :=
  fun hid => hne (eq_of_key ht ht0 (hid.trans hid0.symm))

theorem tracked_trySendReq (hi : Tracked s) (h : step s (.trySendReq m answer) = .ok s') :
    Tracked s' := by
  obtain rfl | ⟨pkt, rest, r, hm, -, -, rfl⟩ := step_trySendReq h
  · exact hi
  have hhead : pkt ∈ s.bridge.master m := by rw [hm]; exact mem_cons_self
  obtain ⟨t0, ht0, hid0, -, -, hst0⟩ := hi.req m pkt hhead
  have hids := hi.reqIds m
  rw [hm, map_cons, nodup_cons] at hids
  -- a packet with the id of the one sent would have to be the one sent
  have hkeep : ∀ m', ∀ x ∈ s.bridge.master m', (m' = m → x ∈ rest) → x.id ≠ pkt.id := by
    intro m' x hx hrest heq
    obtain ⟨t, ht, hid, -, -, hst⟩ := hi.req m' x hx
    obtain rfl := eq_of_key ht ht0 (by rw [hid, heq, hid0])
    rw [hst0] at hst
    cases hst
    exact hids.1 (mem_map.mpr ⟨x, hrest rfl, heq⟩)
  have hmaster : ∀ m', (sent s.bridge m pkt rest r).master m' =
      if m' = m then rest else s.bridge.master m' := fun m' => by
    simp [sent, Function.update_apply]
  refine ⟨?_, ?_, ?_, hi.respIds⟩
  · intro m' x hx
    rw [hmaster] at hx
    have hx' := mem_popped hm hx
    obtain ⟨t, ht, hid, h'⟩ := hi.req m' x hx'.1
    exact ⟨t, mem_amend_of_ne ht (hid ▸ hkeep m' x hx'.1 hx'.2), hid, h'⟩
  · intro m'
    simp only [hmaster]
    split
    · exact hids.2
    · exact hi.reqIds m'
  · intro p x hx
    obtain ⟨t, ht, hid, hst⟩ := hi.resp p x hx
    refine ⟨t, mem_amend_of_ne ht (id_ne ht0 hid0 ht ?_), hid, hst⟩
    rintro rfl
    simp [hst0] at hst

theorem tracked_recvTimingResp (hi : Tracked s) (he : enabled s (.recvTimingResp pkt) = true)
    (h : step s (.recvTimingResp pkt) = .ok s') : Tracked s' := by
  obtain ⟨t0, ht0, hid0, -, -, o, e, hst0⟩ := inFlight_of_enabled he
  obtain ⟨p, r, -, -, rfl⟩ := step_recvTimingResp h
  -- entries of listed packets are not in flight, so they are not the one that moves
  have hne : ∀ t ∈ s.ledger, t.stage ≠ .inFlight o e → t.id ≠ pkt.id :=
    fun t ht hst => id_ne ht0 hid0 ht fun heq => hst (heq ▸ hst0)
  refine ⟨?_, hi.reqIds, ?_, ?_⟩
  · intro m x hx
    obtain ⟨t, ht, hid, hreq, hn, hst⟩ := hi.req m x hx
    exact ⟨t, mem_amend_of_ne ht (hne t ht (by rw [hst]; simp)), hid, hreq, hn, hst⟩
  · intro p' x hx
    rw [queued_transmitList] at hx
    rcases (mem_pushed (f := fun p => (s.bridge.slave p).transmitList)).1 hx with hx' | ⟨rfl, rfl⟩
    · obtain ⟨t, ht, hid, hst⟩ := hi.resp p' x hx'
      exact ⟨t, mem_amend_of_ne ht (hne t ht (by rw [hst]; simp)), hid, hst⟩
    · exact ⟨_, mem_amend_of_id ht0 hid0, hid0, rfl⟩
  · intro p'
    rw [queued_transmitList]
    split
    · refine nodup_snoc (hi.respIds p) fun x hx => ?_
      obtain ⟨t, ht, hid, hst⟩ := hi.resp p x hx
      exact hid ▸ hne t ht (by rw [hst]; simp)
    · exact hi.respIds p'

theorem tracked_trySendResp (hi : Tracked s) (h : step s (.trySendResp p taken) = .ok s') :
    Tracked s' := by
  obtain rfl | ⟨pkt, rest, hl, rfl⟩ := step_trySendResp h
  · exact hi
  have hhead : pkt ∈ (s.bridge.slave p).transmitList := by rw [hl]; exact mem_cons_self
  obtain ⟨t0, ht0, hid0, hst0⟩ := hi.resp p pkt hhead
  have hids := hi.respIds p
  rw [hl, map_cons, nodup_cons] at hids
  have hopen : ∀ t ∈ s.ledger, t.id ≠ pkt.id →
      t ∈ s.ledger.discard fun t => t.id = pkt.id && t.port = p :=
    fun t ht hne => mem_discard.mpr ⟨ht, by simp [hne]⟩
  refine ⟨?_, hi.reqIds, ?_, ?_⟩
  · intro m x hx
    obtain ⟨t, ht, hid, hreq, hn, hst⟩ := hi.req m x hx
    refine ⟨t, hopen t ht (id_ne ht0 hid0 ht ?_), hid, hreq, hn, hst⟩
    rintro rfl
    simp [hst0] at hst
  · intro p' x hx
    rw [released_transmitList] at hx
    have hx' := mem_popped (f := fun p => (s.bridge.slave p).transmitList) hl hx
    obtain ⟨t, ht, hid, hst⟩ := hi.resp p' x hx'.1
    refine ⟨t, hopen t ht ?_, hid, hst⟩
    intro heq
    obtain rfl := eq_of_key ht ht0 (by rw [heq, hid0])
    rw [hst0] at hst
    cases hst
    exact hids.1 (mem_map.mpr ⟨x, hx'.2 rfl, by rw [← hid, heq]⟩)
  · intro p'
    rw [released_transmitList]
    split
    · exact hids.2
    · exact hi.respIds p'

/-- **Tracked.** Every step keeps the lists and the ledger together. -/
theorem tracked_step (hi : Tracked s) (he : enabled s e = true) (h : step s e = .ok s') :
    Tracked s' := by
  cases e with
  | recvTimingReq p pkt => exact tracked_recvTimingReq hi he h
  | trySendReq m answer => exact tracked_trySendReq hi h
  | recvTimingResp pkt => exact tracked_recvTimingResp hi he h
  | trySendResp p taken => exact tracked_trySendResp hi h
  | rewrite q r =>
    cases h
    exact { hi with }

end Preserved

end Gem5Cxl.L3.BridgeRuns
