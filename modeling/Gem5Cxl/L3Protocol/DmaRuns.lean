import Gem5Cxl.L2Machine.DmaPort
import Gem5Cxl.L3Protocol.ChunkRuns

/-!
# Runs of a DMA port in timing mode

A DMA port under its callers and its peer: DMA actions, offers that are taken
or refused, retries, responses in any order, and `abortPending`. The ghost
fields say which requests have been aborted and which packets answered.

* `Accounted`: what the port promises. `pendingCount` counts the packets in
  flight; a request that was not aborted signals its completion once, with its
  last packet; an aborted one without packets in flight is released and has
  signalled its abort.
* `Account`: the invariant behind it. The packets of a request were answered,
  are in flight or are owed, or were cut off by an abort; a request state is
  alive exactly while something of the request is still to come.
* `Inv.dmaAction`, `Inv.sendEvent`, `Inv.retry`: the sending steps keep it.
-/
namespace Gem5Cxl.L3.DmaRuns

open Core L1 L2 L3.ChunkRuns List Function ChunkPort

/-! ## The system -/

structure Events where
  completion : Option Nat := none
  abort : Option Nat := none
deriving DecidableEq, Repr

/-- `aborted`: the requests that were on the transmit list when `abortPending` was called. -/
structure Sys where
  world : World := {}
  events : List Events := []
  answered : List ChunkPacket := []
  aborted : List Nat := []

inductive Ev
  | dmaAction (call : Call) (events : Events) (delay : Nat) (accept : Bool)
  | sendEvent (accept : Bool)
  | retry (accept : Bool)
  | response (pkt : ChunkPacket)
  | abortPending

/-- The port after a call of it, and the packet it offered meanwhile. -/
def Sys.absorb (s : Sys) (accept : Bool) (r : ChunkPort × Option ChunkPacket) : Sys :=
  match r.2 with
  | some pkt => { s with world := s.world.offer r.1 pkt accept }
  | none => { s with world := { s.world with port := r.1 } }

/-- An action has been called, and the port has not yet run. -/
def Sys.called (c : Nat) (s : Sys) (call : Call) (ev : Events) : Sys :=
  { s with
    world := { s.world with
      calls := s.world.calls ++ [call]
      owed := s.world.owed ++ packets c s.world.calls.length call }
    events := s.events ++ [ev] }

def step (c : Nat) (owner : DmaOwner) (s : Sys) : Ev → Except Fault Sys
  | .dmaAction call ev delay accept => do
    let r ← DmaPort.dmaAction c owner s.world.port s.world.calls.length call.cmd call.addr call.size
      ev.completion delay ev.abort accept
    .ok ((s.called c call ev).absorb accept r)
  | .sendEvent accept => do
    let r ← DmaPort.sendDma { s.world.port with sendEvent := false } accept
    .ok (s.absorb accept r)
  | .retry accept => do
    let r ← DmaPort.recvReqRetry s.world.port accept
    .ok (s.absorb accept r)
  | .response pkt => do
    let p ← DmaPort.recvTimingResp s.world.port pkt
    .ok { s with
      world := { s.world with port := p, inFlight := s.world.inFlight.erase pkt }
      answered := s.answered ++ [pkt] }
  | .abortPending => do
    let p ← DmaPort.abortPending s.world.port
    .ok { s with
      world := { s.world with port := p, owed := [] }
      aborted := s.aborted ++ s.world.port.transmitList }

/-- What callers and a peer that follows the timing protocol do: a retry comes
after a refusal, and a response answers a packet in flight. -/
def enabled (s : Sys) : Ev → Prop
  | .dmaAction call _ _ _ => call.addr < 2 ^ 64 ∧ call.size < 2 ^ 64
  | .sendEvent _ => s.world.port.sendEvent = true
  | .retry _ => s.world.port.retryPending = true
  | .response pkt => pkt ∈ s.world.inFlight
  | .abortPending => True

def machine (c : Nat) (owner : DmaOwner) : Machine Sys Ev Fault where
  init s := s = {}
  enabled := enabled
  step := step c owner

theorem init_empty (c : Nat) (owner : DmaOwner) : (machine c owner).init {} := rfl

/-! ## The promise -/

def completionOf (i : Nat) : Signal → Option Nat
  | .completion j e _ => if j = i then some e else none
  | _ => none

def abortOf (i : Nat) : Signal → Option Nat
  | .abort j e => if j = i then some e else none
  | _ => none

/-- The completion events that request `i` has scheduled. -/
def completions (i : Nat) (l : List Signal) : List Nat := l.filterMap (completionOf i)

/-- The abort events that request `i` has scheduled. -/
def aborts (i : Nat) (l : List Signal) : List Nat := l.filterMap (abortOf i)

structure Accounted (c : Nat) (s : Sys) : Prop where
  pending : s.world.port.pendingCount = s.world.inFlight.length
  completes : ∀ i call ev, s.world.calls[i]? = some call → s.events[i]? = some ev → i ∉ s.aborted →
    completions i s.world.port.signals =
      if (ofState i s.answered).Perm (packets c i call) then ev.completion.toList else []
  releases : ∀ i ev, s.events[i]? = some ev → i ∈ s.aborted → ofState i s.world.inFlight = [] →
    s.world.port.states i = none ∧ aborts i s.world.port.signals = ev.abort.toList

/-! ## Signals -/

@[simp] theorem completions_append (i : Nat) (l m : List Signal) :
    completions i (l ++ m) = completions i l ++ completions i m := filterMap_append ..

@[simp] theorem aborts_append (i : Nat) (l m : List Signal) :
    aborts i (l ++ m) = aborts i l ++ aborts i m := filterMap_append ..

@[simp] theorem completions_drain (i n : Nat) : completions i (drainSignals n) = [] := by
  unfold drainSignals
  split <;> rfl

@[simp] theorem aborts_drain (i n : Nat) : aborts i (drainSignals n) = [] := by
  unfold drainSignals
  split <;> rfl

theorem completions_abort (i j : Nat) (e : Option Nat) :
    completions i (e.map (Signal.abort j)).toList = [] := by
  cases e <;> rfl

theorem aborts_abort (i j : Nat) (e : Option Nat) :
    aborts i (e.map (Signal.abort j)).toList = if i = j then e.toList else [] := by
  cases e with
  | none => simp [aborts]
  | some e =>
    by_cases h : i = j
    · simp [aborts, abortOf, h]
    · simp [aborts, abortOf, h, Ne.symm h]

theorem completions_completion (i j delay : Nat) (e : Option Nat) :
    completions i (e.map (Signal.completion j · delay)).toList =
      if i = j then e.toList else [] := by
  cases e with
  | none => simp [completions]
  | some e =>
    by_cases h : i = j
    · simp [completions, completionOf, h]
    · simp [completions, completionOf, h, Ne.symm h]

theorem aborts_completion (i j delay : Nat) (e : Option Nat) :
    aborts i (e.map (Signal.completion j · delay)).toList = [] := by
  cases e <;> rfl

/-! ## The invariant -/

structure Open (s : Sys) (i : Nat) (call : Call) (ev : Events) (st : ReqState) : Prop where
  total : st.totBytes = call.size
  bytes : st.numBytes = bytesOf i s.answered
  aborted : st.aborted = true ↔ i ∈ s.aborted
  completion : st.completionEvent = ev.completion
  abort : st.abortEvent = ev.abort
  waits : ofState i s.world.inFlight ≠ [] ∨ i ∈ s.world.port.transmitList
  silent : completions i s.world.port.signals = [] ∧ aborts i s.world.port.signals = []

structure Closed (s : Sys) (i : Nat) (ev : Events) : Prop where
  landed : ofState i s.world.inFlight = []
  completed : i ∉ s.aborted → completions i s.world.port.signals = ev.completion.toList
  aborted : i ∈ s.aborted → aborts i s.world.port.signals = ev.abort.toList

/-- What the requests, their packets and their signals have to do with each other.
`plan`: the packets of a request were sent or are owed, or have been cut off by an
abort; `unsent`: only the first request of the transmit list has begun. -/
structure Account (c : Nat) (s : Sys) : Prop where
  books : Books c s.world
  events : s.events.length = s.world.calls.length
  bounds : ∀ call ∈ s.world.calls, call.addr < 2 ^ 64 ∧ call.size < 2 ^ 64
  wire : s.world.accepted.Perm (s.answered ++ s.world.inFlight)
  known : ∀ r ∈ s.world.accepted, r.senderState < s.world.calls.length
  off : ∀ i ∈ s.aborted, i < s.world.calls.length ∧ i ∉ s.world.port.transmitList
  plan : ∀ i call, s.world.calls[i]? = some call → ∃ cut,
    ofState i (s.world.accepted ++ s.world.owed) ++ cut = packets c i call ∧
      (cut = [] ↔ i ∉ s.aborted)
  unsent : ∀ i ∈ s.world.port.transmitList.tail, ofState i s.world.accepted = []
  silent : ∀ i, s.world.calls.length ≤ i →
    completions i s.world.port.signals = [] ∧ aborts i s.world.port.signals = []
  opened : ∀ i call ev st, s.world.calls[i]? = some call → s.events[i]? = some ev →
    s.world.port.states i = some st → Open s i call ev st
  closed : ∀ i ev, s.events[i]? = some ev → s.world.port.states i = none → Closed s i ev

structure Inv (c : Nat) (s : Sys) : Prop where
  account : Account c s
  flags : Flags s.world.port

/-- A step that answers nothing of request `i`, does not abort it and signals nothing for it. -/
structure Same (s s' : Sys) (i : Nat) : Prop where
  bytes : bytesOf i s'.answered = bytesOf i s.answered
  aborted : i ∈ s'.aborted ↔ i ∈ s.aborted
  completions : completions i s'.world.port.signals = completions i s.world.port.signals
  aborts : aborts i s'.world.port.signals = aborts i s.world.port.signals

theorem Same.of_signals {s : Sys} {w : World} (i : Nat)
    (hsig : w.port.signals = s.world.port.signals) :
    Same s { s with world := w } i := by
  refine ⟨rfl, .rfl, ?_, ?_⟩
  · rw [hsig]
  · rw [hsig]

variable {call : Call} {ev : Events} {i : Nat} {st : ReqState}

theorem Open.same {s s' : Sys} {st' : ReqState}
    (h : Open s i call ev st) (hs : Same s s' i) (hst : account st' = account st)
    (hw : ofState i s'.world.inFlight ≠ [] ∨ i ∈ s'.world.port.transmitList) :
    Open s' i call ev st' := by
  obtain ⟨ht, hn, ha, hce, hae⟩ : st'.totBytes = st.totBytes ∧ st'.numBytes = st.numBytes ∧
      st'.aborted = st.aborted ∧ st'.completionEvent = st.completionEvent ∧
      st'.abortEvent = st.abortEvent := by simpa [account] using hst
  refine ⟨ht.trans h.total, ?_, ?_, hce.trans h.completion, hae.trans h.abort, hw,
    hs.completions.trans h.silent.1, hs.aborts.trans h.silent.2⟩
  · rw [hn, hs.bytes, h.bytes]
  · rw [ha, hs.aborted, h.aborted]

theorem Closed.same {s s' : Sys} (h : Closed s i ev) (hs : Same s s' i)
    (hl : ofState i s'.world.inFlight = []) : Closed s' i ev := by
  refine ⟨hl, ?_, ?_⟩
  · intro hna
    exact hs.completions.trans (h.completed fun ha => hna (hs.aborted.2 ha))
  · intro ha
    exact hs.aborts.trans (h.aborted (hs.aborted.1 ha))

section Account

variable {c : Nat} {s : Sys} {i : Nat} {call : Call} {l m : List ChunkPacket}

theorem bytes_of_split (hc : 0 < c) (h : (l ++ m).Perm (packets c i call)) :
    bytes (l.map (·.chunk)) + bytes (m.map (·.chunk)) = call.size ∧
      (l ≠ [] → m ≠ [] → 0 < bytes (l.map (·.chunk))) := by
  have hsum : bytes (l.map (·.chunk)) + bytes (m.map (·.chunk)) = call.size := by
    have hb := bytes_perm (h.map (·.chunk))
    rw [map_append, bytes_append] at hb
    rw [hb, packets, map_map]
    exact (congrArg bytes (map_id _)).trans (ChunkGenerator.bytes_chunks hc _ _)
  refine ⟨hsum, ?_⟩
  intro hl hm
  have hlen := h.length_eq
  have hl' := length_pos_iff.2 hl
  have hm' := length_pos_iff.2 hm
  have hsize : 0 < call.size := by
    by_contra h0
    have h0 : call.size = 0 := by omega
    simp only [packets, ChunkGenerator.chunks, if_pos h0, length_append, map_cons,
      map_nil, length_singleton] at hlen
    omega
  obtain ⟨r, t, rfl⟩ := exists_cons_of_ne_nil hl
  have hr : r ∈ packets c i call := h.subset (mem_append_left _ mem_cons_self)
  rw [packets, ChunkGenerator.chunks_pos hsize] at hr
  obtain ⟨q, hq, rfl⟩ := mem_map.1 hr
  have := lineChunks_pos hc _ _ q hq
  simp only [map_cons, bytes_cons]
  omega

section
variable (h : Account c s)
include h

theorem Account.wireOf (i : Nat) :
    (ofState i s.world.accepted).Perm (ofState i s.answered ++ ofState i s.world.inFlight) := by
  rw [← ofState_append]
  exact h.wire.filter _

theorem Account.split (hcall : s.world.calls[i]? = some call) :
    ∃ cut, (ofState i s.answered ++ (ofState i s.world.inFlight ++
        (ofState i s.world.owed ++ cut))).Perm (packets c i call) ∧ (cut = [] ↔ i ∉ s.aborted) := by
  obtain ⟨cut, hplan, hcut⟩ := h.plan i call hcall
  refine ⟨cut, ?_, hcut⟩
  rw [← hplan, ofState_append, append_assoc, ← append_assoc]
  exact ((h.wireOf i).append_right _).symm

theorem Account.owed_nil (hi : i ∉ s.world.port.transmitList) : ofState i s.world.owed = [] :=
  ofState_eq_nil.2 fun r hr he => hi (he ▸ h.books.queued.mem_of_packet r hr)

theorem Account.listed (hi : i ∈ s.world.port.transmitList) :
    ∃ st, s.world.port.states i = some st := h.books.queued.exists_state i hi

theorem Account.exists_event (hcall : s.world.calls[i]? = some call) :
    ∃ ev, s.events[i]? = some ev := by
  have hi := (List.getElem?_eq_some_iff.1 hcall).1
  rw [← h.events] at hi
  exact ⟨_, getElem?_eq_getElem hi⟩

theorem Account.exists_call (hev : s.events[i]? = some ev) :
    ∃ call, s.world.calls[i]? = some call := by
  have hi := (List.getElem?_eq_some_iff.1 hev).1
  rw [h.events] at hi
  exact ⟨_, getElem?_eq_getElem hi⟩

theorem Account.settles : Accounted c s := by
  refine ⟨h.books.counted, ?_, ?_⟩
  · intro i call ev hcall hev hna
    obtain ⟨cut, hsplit, hcut⟩ := h.split hcall
    rw [hcut.2 hna, append_nil] at hsplit
    cases hst : s.world.port.states i with
    | none =>
      have hcl := h.closed i ev hev hst
      have hoff : i ∉ s.world.port.transmitList := by
        intro hi
        obtain ⟨st, hst'⟩ := h.listed hi
        cases hst.symm.trans hst'
      rw [hcl.landed, h.owed_nil hoff, append_nil, append_nil] at hsplit
      rw [if_pos hsplit, hcl.completed hna]
    | some st =>
      have hop := h.opened i call ev st hcall hev hst
      rw [hop.silent.1, if_neg]
      intro hperm
      have hlen := hsplit.length_eq
      rw [← hperm.length_eq, length_append, length_append] at hlen
      rcases hop.waits with hw | hw
      · have := length_pos_iff.2 hw
        omega
      · have := length_pos_iff.2 (h.books.queued.ofState_ne_nil i hw)
        omega
  · intro i ev hev hab hfl
    cases hst : s.world.port.states i with
    | none => exact ⟨rfl, (h.closed i ev hev hst).aborted hab⟩
    | some st =>
      obtain ⟨call, hcall⟩ := h.exists_call hev
      rcases (h.opened i call ev st hcall hev hst).waits with hw | hw
      · exact absurd hfl hw
      · exact absurd hw (h.off i hab).2

end

end Account

/-! ## Sending -/

section Send

variable {k c : Nat} {s : Sys}

/-- What an offer leaves alone: the signals, and of each request what the account is about. -/
structure Kept (s : Sys) (p : ChunkPort) : Prop where
  signals : p.signals = s.world.port.signals
  states : ∀ i, (p.states i).map account = (s.world.port.states i).map account

variable {p : ChunkPort}

theorem Kept.closed (hk : Kept s p) (hi : p.states i = none) : s.world.port.states i = none := by
  simpa [hi] using (hk.states i).symm

theorem Kept.opened (hk : Kept s p) (h : Account c s)
    (hcall : s.world.calls[i]? = some call) (hev : s.events[i]? = some ev)
    (hi : p.states i = some st) : ∃ st', account st = account st' ∧ Open s i call ev st' := by
  have hmap := hk.states i
  rw [hi] at hmap
  cases hs : s.world.port.states i with
  | none => simp [hs] at hmap
  | some st' => exact ⟨st', by simpa [hs] using hmap, h.opened i call ev st' hcall hev hs⟩

/-- Only the port has changed, and not in what the account is about: the peer has refused a
packet. -/
theorem Account.port (h : Account c s) (hk : Kept s p) (hb : Books c { s.world with port := p })
    (hl : p.transmitList = s.world.port.transmitList) : Account c { s with world.port := p } := by
  have hsig := hk.signals
  refine ⟨hb, h.events, h.bounds, h.wire, h.known, hl ▸ h.off, h.plan, hl ▸ h.unsent, hsig ▸ h.silent, ?_, ?_⟩
  · intro i call ev st hcall hev hi
    obtain ⟨st', hacc, ho⟩ := hk.opened h hcall hev hi
    exact ho.same (.of_signals i hsig) hacc (hl.symm ▸ ho.waits)
  · intro i ev hev hi
    have hcl := h.closed i ev hev (hk.closed hi)
    exact hcl.same (.of_signals i hsig) hcl.landed

theorem Account.flagged (h : Account c s) (event pending : Bool) : Account c
    { s with world.port := { s.world.port with sendEvent := event, retryPending := pending } } :=
  h.port ⟨rfl, fun _ => rfl⟩ { h.books with } rfl

/-- The peer takes the packet; its request leaves the transmit list if it was the last one. -/
theorem Account.taken (h : Account c s) {pkt : ChunkPacket} (hk : Kept s p)
    (hb : Books c (s.world.offer p pkt true)) (ho : s.world.owed.head? = some pkt)
    (hhead : s.world.port.transmitList.head? = some pkt.senderState)
    (hlist : p.transmitList = s.world.port.transmitList ∨
      p.transmitList = s.world.port.transmitList.tail) :
    Account c { s with world := s.world.offer p pkt true } := by
  have hsig := hk.signals
  have hpkt : pkt.senderState ∈ s.world.port.transmitList := mem_of_mem_head? hhead
  obtain ⟨owed, howed⟩ := head?_eq_some_iff.1 ho
  obtain ⟨l, hl⟩ := head?_eq_some_iff.1 hhead
  obtain ⟨hleft, hsub⟩ : l <+ p.transmitList ∧ p.transmitList <+ pkt.senderState :: l := by
    rw [hl] at hlist
    rcases hlist with he | he <;> rw [he]
    · exact ⟨sublist_cons_self .., .refl _⟩
    · exact ⟨.refl _, sublist_cons_self ..⟩
  refine ⟨hb, h.events, h.bounds, ?_, ?_, ?_, ?_, ?_, hsig ▸ h.silent, ?_, ?_⟩
  · show (s.world.accepted ++ [pkt]).Perm (s.answered ++ (s.world.inFlight ++ [pkt]))
    rw [← append_assoc]
    exact h.wire.append_right _
  · exact forall_mem_append.2 ⟨h.known, forall_mem_singleton.2 (h.books.queued.lt_length _ hpkt)⟩
  · intro i hi
    exact ⟨(h.off i hi).1, fun hm => (h.off i hi).2 (hl ▸ hsub.subset hm)⟩
  · intro i call hcall
    obtain ⟨cut, hplan, hcut⟩ := h.plan i call hcall
    refine ⟨cut, ?_, hcut⟩
    show ofState i ((s.world.accepted ++ [pkt]) ++ s.world.owed.tail) ++ cut = _
    rw [append_assoc, howed, tail_cons, singleton_append, ← howed]
    exact hplan
  · intro i hi
    have hil : i ∈ l := hsub.tail.subset hi
    have hnodup := h.books.nodup
    rw [hl] at hnodup
    have hne : pkt.senderState ≠ i := fun he => (nodup_cons.1 hnodup).1 (he ▸ hil)
    show ofState i (s.world.accepted ++ [pkt]) = []
    rw [ofState_append, ofState_other hne, h.unsent i (by rw [hl]; exact hil), append_nil]
  · intro i call ev st hcall hev hi
    obtain ⟨st', hacc, ho⟩ := hk.opened h hcall hev hi
    refine ho.same (.of_signals i hsig) hacc ?_
    show ofState i (s.world.inFlight ++ [pkt]) ≠ [] ∨ i ∈ p.transmitList
    rw [ofState_append]
    by_cases hne : i = pkt.senderState
    · left
      rw [ofState_self hne.symm]
      simp
    · refine ho.waits.imp (fun hw => by simp [hw]) fun hw => hleft.subset ?_
      exact (mem_cons.1 (hl ▸ hw)).resolve_left hne
  · intro i ev hev hi
    have hcl := h.closed i ev hev (hk.closed hi)
    have hne : pkt.senderState ≠ i := by
      intro hne
      obtain ⟨st, hst⟩ := h.listed (hne ▸ hpkt)
      cases (hk.closed hi).symm.trans hst
    refine hcl.same (.of_signals i hsig) ?_
    show ofState i (s.world.inFlight ++ [pkt]) = []
    rw [ofState_append, hcl.landed, ofState_other hne, append_nil]

theorem Account.offer (hc : 0 < c) (h : Account c s) (hne : s.world.port.transmitList ≠ [])
    (hp : s.world.port.retryPending = false) (he : s.world.port.sendEvent = false) (accept : Bool)
    (hroom : s.world.inFlight.length + 1 < 2 ^ 32) :
    ∃ p pkt, s.world.port.trySendTimingReq accept = .ok (p, pkt) ∧
      Inv c { s with world := s.world.offer p pkt accept } := by
  obtain ⟨p, pkt, hsend, ho, hhead, hlist, hb, hf, -, hsig, hst⟩ :=
    h.books.offer hc hne hp he accept fun _ => hroom
  refine ⟨p, pkt, hsend, ?_, by cases accept <;> exact hf⟩
  cases accept with
  | false => exact h.port ⟨hsig, hst⟩ hb (hlist.resolve_right fun hx => absurd hx.1 (by decide))
  | true => exact h.taken ⟨hsig, hst⟩ hb ho hhead (hlist.imp_right And.right)

/-- Nothing is known of the request that comes next. -/
structure Unused (s : Sys) (n : Nat) : Prop where
  aborted : n ∉ s.aborted
  accepted : ofState n s.world.accepted = []
  answered : ofState n s.answered = []
  owed : ofState n s.world.owed = []

theorem Account.unused (h : Account c s) : Unused s s.world.calls.length := by
  have hacc : ofState s.world.calls.length s.world.accepted = [] := by
    refine ofState_eq_nil.2 fun r hr he => ?_
    have := h.known r hr
    omega
  refine ⟨fun hi => absurd (h.off _ hi).1 (lt_irrefl _), hacc, ?_, ?_⟩
  · have hp := h.wireOf s.world.calls.length
    rw [hacc] at hp
    exact (append_eq_nil_iff.1 hp.nil_eq.symm).1
  · exact h.owed_nil fun hi => absurd (h.books.queued.lt_length _ hi) (lt_irrefl _)

/-- An element of a list that has got one more is the new one or was there before. -/
theorem getElem?_snoc {α : Type} {l : List α} {x y : α} (h : (l ++ [x])[i]? = some y) :
    (i = l.length ∧ x = y) ∨ (i ≠ l.length ∧ l[i]? = some y) := by
  by_cases hi : i = l.length
  · subst hi
    exact .inl ⟨rfl, by simpa using h⟩
  · have hlt := (List.getElem?_eq_some_iff.1 h).1
    rw [length_append, length_singleton] at hlt
    exact .inr ⟨hi, by rwa [getElem?_append_left (by omega)] at h⟩

theorem Account.push (hk : k < 64) (h : Account (2 ^ k) s) {d : CxlDev}
    {delay : Nat} (hb : call.addr < 2 ^ 64 ∧ call.size < 2 ^ 64)
    (hf : ChunkGenerator.Fits (2 ^ k) call.addr call.size) :
    Account (2 ^ k) { s with
      world := s.world.push (2 ^ k) call
        (DmaPort.newState (2 ^ k) d call.cmd call.addr call.size ev.completion delay ev.abort)
      events := s.events ++ [ev] } := by
  have hnew := h.unused
  refine ⟨h.books.push hk hb.1 hf rfl rfl, ?_, ?_, h.wire, ?_, ?_, ?_, ?_, ?_, ?_, ?_⟩
  · show (s.events ++ [ev]).length = (s.world.calls ++ [call]).length
    simp [h.events]
  · exact forall_mem_append.2 ⟨h.bounds, forall_mem_singleton.2 hb⟩
  · intro r hr
    have := h.known r hr
    simp only [World.push, length_append]
    omega
  · intro i hi
    obtain ⟨hlt, hoff⟩ := h.off i hi
    refine ⟨by simp only [World.push, length_append]; omega, ?_⟩
    show i ∉ s.world.port.transmitList ++ [s.world.calls.length]
    simp [hoff, hlt.ne]
  · intro i x hx
    show ∃ cut, ofState i (s.world.accepted ++ (s.world.owed ++ packets _ s.world.calls.length call)) ++
      cut = packets _ i x ∧ _
    rcases getElem?_snoc hx with ⟨rfl, rfl⟩ | ⟨hi, hx⟩
    · refine ⟨[], ?_, iff_of_true rfl hnew.aborted⟩
      rw [ofState_append, ofState_append, hnew.accepted, hnew.owed, ofState_packets_self]
      simp
    · obtain ⟨cut, hplan, hcut⟩ := h.plan i x hx
      refine ⟨cut, ?_, hcut⟩
      rw [← hplan, ofState_append, ofState_append, ofState_packets_other _ (.symm hi),
        append_nil, ofState_append]
  · intro i hi
    have hi : i ∈ (s.world.port.transmitList ++ [s.world.calls.length]).tail := hi
    cases hl : s.world.port.transmitList with
    | nil => simp [hl] at hi
    | cons j l =>
      rw [hl] at hi
      rcases mem_append.1 hi with hi | hi
      · exact h.unsent i (by rw [hl]; exact hi)
      · rw [mem_singleton.1 hi]
        exact hnew.accepted
  · intro i hi
    refine h.silent i ?_
    simp only [World.push, length_append] at hi
    omega
  · intro i x e st hx he hst
    have hst : update s.world.port.states s.world.calls.length _ i = some st := hst
    rcases getElem?_snoc hx with ⟨rfl, rfl⟩ | ⟨hi, hx⟩
    · obtain ⟨-, rfl⟩ := (getElem?_snoc he).resolve_right fun hold => hold.1 h.events.symm
      rw [update_self] at hst
      cases hst
      refine ⟨rfl, ?_, iff_of_false (by simp [DmaPort.newState]) hnew.aborted, rfl, rfl, .inr ?_,
        h.silent _ le_rfl⟩
      · rw [bytesOf, hnew.answered]
        rfl
      · show s.world.calls.length ∈ s.world.port.transmitList ++ [s.world.calls.length]
        simp
    · obtain ⟨-, he⟩ := (getElem?_snoc he).resolve_left fun hlast => hi (hlast.1.trans h.events)
      rw [update_of_ne hi] at hst
      have ho := h.opened i x e st hx he hst
      exact ho.same ⟨rfl, .rfl, rfl, rfl⟩ rfl
        (ho.waits.imp_right fun hm => mem_append_left _ hm)
  · intro i e he hst
    have hst : update s.world.port.states s.world.calls.length _ i = none := hst
    have hi : i ≠ s.world.calls.length := by
      rintro rfl
      rw [update_self] at hst
      cases hst
    obtain ⟨-, he⟩ := (getElem?_snoc he).resolve_left fun hlast => hi (hlast.1.trans h.events)
    rw [update_of_ne hi] at hst
    have hcl := h.closed i e he hst
    exact hcl.same ⟨rfl, .rfl, rfl, rfl⟩ hcl.landed

theorem Account.sendDma (hc : 0 < c) (h : Account c s) (hne : s.world.port.transmitList ≠ [])
    (hwait : s.world.port.retryPending = true ∨ s.world.port.sendEvent = true → Flags s.world.port)
    (accept : Bool) (hroom : s.world.inFlight.length + 1 < 2 ^ 32) :
    ∃ r, DmaPort.sendDma s.world.port accept = .ok r ∧ Inv c (s.absorb accept r) := by
  by_cases hw : s.world.port.retryPending = true ∨ s.world.port.sendEvent = true
  · refine ⟨(s.world.port, none), ?_, h, hwait hw⟩
    simp only [DmaPort.sendDma, sendWith, if_neg hne, Bool.or_eq_true, if_pos hw]
  · have hp : s.world.port.retryPending = false := by simpa using fun h => hw (.inl h)
    have he : s.world.port.sendEvent = false := by simpa using fun h => hw (.inr h)
    obtain ⟨p, pkt, hsend, hi⟩ := h.offer hc hne hp he accept hroom
    refine ⟨(p, some pkt), ?_, hi⟩
    simp only [DmaPort.sendDma, sendWith, if_neg hne, hp, he, hsend, ok_bind, Bool.or_self,
      Bool.false_eq_true, if_false]

theorem Inv.dmaAction (hk : k < 64) (h : Inv (2 ^ k) s) (d : CxlDev) (call : Call) (ev : Events)
    (delay : Nat) (accept : Bool) (hb : call.addr < 2 ^ 64 ∧ call.size < 2 ^ 64)
    (hf : ChunkGenerator.Fits (2 ^ k) call.addr call.size)
    (hroom : s.world.inFlight.length + 1 < 2 ^ 32) :
    ∃ s', step (2 ^ k) (.cxlDevice d) s (.dmaAction call ev delay accept) = .ok s' ∧
      Inv (2 ^ k) s' := by
  let s₁ : Sys := { s with
    world := s.world.push (2 ^ k) call
      (DmaPort.newState (2 ^ k) d call.cmd call.addr call.size ev.completion delay ev.abort)
    events := s.events ++ [ev] }
  have hne : s₁.world.port.transmitList ≠ [] := by simp [s₁, World.push, push]
  have hacc : Account (2 ^ k) s₁ := h.account.push hk hb hf
  obtain ⟨r, hr, hi⟩ := hacc.sendDma (Nat.two_pow_pos k) hne (fun hw =>
    ⟨h.flags.waits, fun _ => hne, fun _ => hw.symm, h.flags.held⟩) accept hroom
  refine ⟨(s.called (2 ^ k) call ev).absorb accept r, bind_eq_ok.2 ⟨r, hr, rfl⟩, ?_⟩
  exact hi

theorem Inv.sendEvent (hc : 0 < c) (h : Inv c s) (owner : DmaOwner) (accept : Bool)
    (hev : s.world.port.sendEvent = true) (hroom : s.world.inFlight.length + 1 < 2 ^ 32) :
    ∃ s', step c owner s (.sendEvent accept) = .ok s' ∧ Inv c s' := by
  have hp := h.flags.not_pending hev
  obtain ⟨r, hr, hi⟩ := (h.account.flagged false s.world.port.retryPending).sendDma hc
    (h.flags.event hev) (fun hw => by simp [hp] at hw) accept hroom
  refine ⟨s.absorb accept r, bind_eq_ok.2 ⟨r, hr, rfl⟩, ?_⟩
  exact hi

/-- The peer retries: the port offers the packet again, or has nothing to offer any more. -/
theorem Inv.retry (hc : 0 < c) (h : Inv c s) (owner : DmaOwner) (accept : Bool)
    (hrp : s.world.port.retryPending = true) (hroom : s.world.inFlight.length + 1 < 2 ^ 32) :
    ∃ s', step c owner s (.retry accept) = .ok s' ∧ Inv c s' := by
  have he : s.world.port.sendEvent = false := h.flags.waits hrp
  have hacc := h.account.flagged s.world.port.sendEvent false
  by_cases hl : s.world.port.transmitList = []
  · have hheld : s.world.port.inRetry = none := by
      cases hr : s.world.port.inRetry with
      | none => rfl
      | some r =>
        have hh := h.account.books.held r hr
        rw [h.account.books.queued.nil_iff.1 hl] at hh
        cases hh
    refine ⟨_, bind_eq_ok.2 ⟨_, if_pos hl, rfl⟩, hacc, nofun, ?_, ?_, ?_⟩
    · intro hs
      exact absurd (hs.symm.trans he) (by simp)
    · intro hs
      exact absurd hl hs
    · intro hs
      exact absurd hheld hs
  · obtain ⟨p, pkt, hsend, hi⟩ := hacc.offer hc hl rfl he accept hroom
    refine ⟨_, bind_eq_ok.2 ⟨_, (if_neg hl).trans (bind_eq_ok.2 ⟨_, hsend, rfl⟩), rfl⟩, ?_⟩
    cases accept with
    | false => exact hi
    | true => exact hi

end Send

end Gem5Cxl.L3.DmaRuns
