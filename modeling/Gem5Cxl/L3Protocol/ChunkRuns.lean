import Gem5Cxl.L2Machine.ChunkPort

/-!
# A chunk-sending port and its peer

The bookkeeping that the runs of a DMA port and of a CXL processor port share.
A `World` is the port together with what an observer of the wire remembers:
the calls made, the packets the peer has taken (`accepted`), those it has not
answered (`inFlight`) and those the port still owes it (`owed`).

* `Queued`: what the transmit list stands for. Each queued request state has a
  generator that stands at the first chunk not yet taken, so the list of
  request states denotes one list of packets, in order.
* `Books`: the port's fields say what the observer remembers.
* `Flags`: the port waits for a retry or for its send event, whenever it has
  something to send.
* `Books.push`, `Books.offer`: queueing a request adds its packets to what is
  owed; an offer that is taken moves the first owed packet to the wire, one
  that is refused moves nothing.
-/
namespace Gem5Cxl.L3.ChunkRuns

open Core L1 L2 ChunkPort List Function ChunkGenerator

structure Call where
  cmd : MemCmd
  addr : Nat
  size : Nat
deriving DecidableEq, Repr

/-- The packets of a request whose state has the identity `i`. -/
def packets (c i : Nat) (call : Call) : List ChunkPacket :=
  (chunks c call.addr call.size).map (⟨i, call.cmd, ·⟩)

/-- The packets of request `i` among these. -/
def ofState (i : Nat) (l : List ChunkPacket) : List ChunkPacket := l.filter (·.senderState = i)

/-- The bytes of request `i` among these packets. -/
def bytesOf (i : Nat) (l : List ChunkPacket) : Nat := bytes ((ofState i l).map (·.chunk))

/-- Request states are numbered by the calls that made them. -/
structure World where
  port : ChunkPort := {}
  calls : List Call := []
  accepted : List ChunkPacket := []
  inFlight : List ChunkPacket := []
  owed : List ChunkPacket := []

/-- The port after an offer, and what the observer then knows. -/
def World.offer (w : World) (p : ChunkPort) (pkt : ChunkPacket) (accept : Bool) : World :=
  if accept then
    { w with port := p, accepted := w.accepted ++ [pkt], inFlight := w.inFlight ++ [pkt],
             owed := w.owed.tail }
  else { w with port := p }

section OfState

variable {i : Nat} {l m : List ChunkPacket} {pkt : ChunkPacket}

@[simp] theorem ofState_append (i : Nat) (l m : List ChunkPacket) :
    ofState i (l ++ m) = ofState i l ++ ofState i m := filter_append ..

theorem ofState_eq_nil : ofState i l = [] ↔ ∀ r ∈ l, r.senderState ≠ i := by
  simp [ofState]

theorem ofState_self (h : pkt.senderState = i) : ofState i [pkt] = [pkt] := by
  simp [ofState, h]

theorem ofState_other (h : pkt.senderState ≠ i) : ofState i [pkt] = [] := by
  simp [ofState, h]

theorem ofState_packets_self (c i : Nat) (call : Call) :
    ofState i (packets c i call) = packets c i call := by
  simp [ofState, packets]

theorem ofState_packets_other (c : Nat) {j : Nat} (h : j ≠ i) (call : Call) :
    ofState i (packets c j call) = [] := by
  simp [ofState, packets, h]

theorem bytesOf_append (i : Nat) (l m : List ChunkPacket) :
    bytesOf i (l ++ m) = bytesOf i l + bytesOf i m := by
  simp [bytesOf]

end OfState

/-! ## What a transmit list stands for -/

/-- The request states of the list still have these packets to send, in order. -/
inductive Queued (c : Nat) (calls : List Call) (states : Nat → Option ReqState) :
    List Nat → List ChunkPacket → Prop
  | nil : Queued c calls states [] []
  | cons {i : Nat} {l : List Nat} {m : List ChunkPacket} {call : Call} {st : ReqState}
      {q : Chunk} {rest : List Chunk} : calls[i]? = some call → states i = some st →
      st.cmd = call.cmd → st.gen.startAddr = call.addr → st.gen.At c q rest →
      Queued c calls states l m →
      Queued c calls states (i :: l) ((q :: rest).map (⟨i, call.cmd, ·⟩) ++ m)

namespace Queued

variable {c : Nat} {calls : List Call} {states : Nat → Option ReqState} {l : List Nat}
  {m : List ChunkPacket}

theorem lt_length (h : Queued c calls states l m) : ∀ i ∈ l, i < calls.length := by
  induction h with
  | nil => simp
  | cons hcall _ _ _ _ _ ih => exact forall_mem_cons.2 ⟨(List.getElem?_eq_some_iff.1 hcall).1, ih⟩

theorem front {i : Nat} (h : Queued c calls states (i :: l) m) :
    ∃ call st q rest m', calls[i]? = some call ∧ states i = some st ∧
      st.gen.startAddr = call.addr ∧ st.gen.At c q rest ∧
      m = (q :: rest).map (⟨i, call.cmd, ·⟩) ++ m' ∧ Queued c calls states l m' := by
  cases h with
  | cons hcall hst _ ha hat hrest => exact ⟨_, _, _, _, _, hcall, hst, ha, hat, rfl, hrest⟩

section
variable (h : Queued c calls states l m)
include h

theorem nil_iff : l = [] ↔ m = [] := by
  cases h with
  | nil => simp
  | cons => simp

theorem append {l' : List Nat} {m' : List ChunkPacket}
    (h' : Queued c calls states l' m') : Queued c calls states (l ++ l') (m ++ m') := by
  induction h with
  | nil => exact h'
  | cons hcall hst hcmd ha hat _ ih =>
    rw [append_assoc]
    exact .cons hcall hst hcmd ha hat ih

theorem congr_states {states' : Nat → Option ReqState} (hs : ∀ i ∈ l, ∀ st, states i = some st →
      ∃ st', states' i = some st' ∧ st'.cmd = st.cmd ∧
        st'.gen = st.gen) : Queued c calls states' l m := by
  induction h with
  | nil => exact .nil
  | cons hcall hst hcmd ha hat _ ih =>
    obtain ⟨st', hst', hcmd', hgen⟩ := hs _ mem_cons_self _ hst
    exact .cons hcall hst' (hcmd'.trans hcmd) (hgen ▸ ha) (hgen ▸ hat)
      (ih fun j hj => hs j (mem_cons_of_mem _ hj))

theorem update {i : Nat} {x : Option ReqState} (hi : i ∉ l) :
    Queued c calls (update states i x) l m := by
  refine h.congr_states fun j hj st hst => ⟨st, ?_, rfl, rfl⟩
  have hne : j ≠ i := fun he => hi (he ▸ hj)
  rw [update_of_ne hne, hst]

end

theorem calls_append (call : Call) (h : Queued c calls states l m) :
    Queued c (calls ++ [call]) states l m := by
  induction h with
  | nil => exact .nil
  | cons hcall hst hcmd ha hat _ ih =>
    refine .cons ?_ hst hcmd ha hat ih
    rw [getElem?_append_left (List.getElem?_eq_some_iff.1 hcall).1, hcall]

theorem exists_state (h : Queued c calls states l m) : ∀ i ∈ l, ∃ st, states i = some st := by
  induction h with
  | nil => simp
  | cons _ hst _ _ _ _ ih => exact forall_mem_cons.2 ⟨⟨_, hst⟩, ih⟩

theorem ofState_ne_nil (h : Queued c calls states l m) : ∀ i ∈ l, ofState i m ≠ [] := by
  induction h with
  | nil => simp
  | cons hcall hst hcmd ha hat _ ih =>
    intro j hj
    rw [ofState_append]
    rcases mem_cons.1 hj with rfl | hj
    · simp [ofState]
    · simp [ih j hj]

theorem mem_of_packet (h : Queued c calls states l m) : ∀ r ∈ m, r.senderState ∈ l := by
  induction h with
  | nil => simp
  | cons hcall hst hcmd ha hat _ ih =>
    intro r hr
    rcases mem_append.1 hr with hr | hr
    · obtain ⟨x, -, rfl⟩ := mem_map.1 hr
      exact mem_cons_self
    · exact mem_cons_of_mem _ (ih r hr)

end Queued

/-! ## The invariant -/

/-- The port's fields say what the observer remembers. -/
structure Books (c : Nat) (w : World) : Prop where
  fresh : ∀ i, w.calls.length ≤ i → w.port.states i = none
  nodup : w.port.transmitList.Nodup
  queued : Queued c w.calls w.port.states w.port.transmitList w.owed
  held : ∀ r, w.port.inRetry = some r → w.owed.head? = some r
  counted : w.port.pendingCount = w.inFlight.length

/-- A port with something to send waits for exactly one thing. -/
structure Flags (p : ChunkPort) : Prop where
  waits : p.retryPending = true → p.sendEvent = false
  event : p.sendEvent = true → p.transmitList ≠ []
  busy : p.transmitList ≠ [] → p.sendEvent = true ∨ p.retryPending = true
  held : p.inRetry ≠ none → p.retryPending = true

theorem Flags.not_pending {p : ChunkPort} (h : Flags p) (hev : p.sendEvent = true) :
    p.retryPending = false := by
  by_contra hr
  have hoff := h.waits (by simpa using hr)
  rw [hev] at hoff
  cases hoff

theorem books_init (c : Nat) : Books c {} :=
  ⟨fun _ _ => rfl, nodup_nil, .nil, nofun, rfl⟩

theorem flags_init : Flags {} :=
  ⟨nofun, nofun, absurd rfl, absurd rfl⟩

/-- What an offer leaves alone in a request state. -/
def account (st : ReqState) : Nat × Nat × Bool × Option Nat × Option Nat :=
  (st.totBytes, st.numBytes, st.aborted, st.completionEvent, st.abortEvent)

def World.push (c : Nat) (w : World) (call : Call) (st : ReqState) : World :=
  { w with
    port := w.port.push w.calls.length st
    calls := w.calls ++ [call]
    owed := w.owed ++ packets c w.calls.length call }

section Steps

variable {k : Nat} {w : World} {call : Call} {c : Nat} {st : ReqState}

theorem Books.push (hk : k < 64) (h : Books (2 ^ k) w)
    (ha : call.addr < 2 ^ 64) (hf : ChunkGenerator.Fits (2 ^ k) call.addr call.size)
    (hcmd : st.cmd = call.cmd) (hgen : st.gen = .new call.addr call.size (2 ^ k)) :
    Books (2 ^ k) (w.push (2 ^ k) call st) := by
  have hnot : w.calls.length ∉ w.port.transmitList :=
    fun hm => absurd (h.queued.lt_length _ hm) (lt_irrefl _)
  obtain ⟨q, rest, hq, hat⟩ := new_at hk ha hf
  have hnew : Queued (2 ^ k) (w.calls ++ [call])
      (update w.port.states w.calls.length (some st)) [w.calls.length]
      (packets (2 ^ k) w.calls.length call) := by
    rw [packets, hq, ← append_nil (map ..)]
    exact .cons (by simp) (by simp) hcmd (by rw [hgen]; rfl) (hgen ▸ hat) .nil
  constructor
  · intro i hi
    have hi' : w.calls.length + 1 ≤ i := by simpa [World.push] using hi
    have hne : i ≠ w.calls.length := by omega
    show update w.port.states w.calls.length (some st) i = none
    rw [update_of_ne hne]
    exact h.fresh i (by omega)
  · show (w.port.transmitList ++ [w.calls.length]).Nodup
    rw [nodup_append]
    refine ⟨h.nodup, by simp, ?_⟩
    intro a ha b hb he
    rw [mem_singleton.1 hb] at he
    exact hnot (he ▸ ha)
  · exact ((h.queued.calls_append call).update hnot).append hnew
  · intro r hr
    have := h.held r hr
    show (w.owed ++ packets (2 ^ k) w.calls.length call).head? = some r
    rw [head?_append, this]
    rfl
  · exact h.counted

/-- A packet of the first request has been sent: its generator moves on, or it leaves the list. -/
theorem Queued.sent (hc : 0 < c) {calls : List Call} {states : Nat → Option ReqState}
    {i : Nat} {l : List Nat} {m : List ChunkPacket} {q : Chunk}
    {rest : List Chunk} (hrest : Queued c calls states l m) (hcall : calls[i]? = some call)
    (hcmd : st.cmd = call.cmd) (ha : st.gen.startAddr = call.addr) (hat : st.gen.At c q rest)
    (hil : i ∉ l) :
    Queued c calls (Function.update states i (some { st with gen := st.gen.next.2 }))
      (leftover i l st) (rest.map (⟨i, call.cmd, ·⟩) ++ m) := by
  unfold leftover
  split
  · rename_i hlast
    rw [(hat.last_iff hc).1 hlast]
    exact hrest.update hil
  · rename_i hlast
    cases rest with
    | nil => exact absurd ((hat.last_iff hc).2 rfl) hlast
    | cons q' rest' =>
      obtain ⟨g, hg, hat'⟩ := hat.next_cons hc
      refine .cons hcall (update_self ..) hcmd ((next_startAddr st.gen).trans ha) ?_ (hrest.update hil)
      rw [hg]
      exact hat'

theorem Books.offer (hc : 0 < c) (h : Books c w) (hne : w.port.transmitList ≠ [])
    (hp : w.port.retryPending = false) (he : w.port.sendEvent = false) (accept : Bool)
    (hroom : accept = true → w.inFlight.length + 1 < 2 ^ 32) :
    ∃ p pkt, w.port.trySendTimingReq accept = .ok (p, pkt) ∧ w.owed.head? = some pkt ∧
      w.port.transmitList.head? = some pkt.senderState ∧
      (p.transmitList = w.port.transmitList ∨
        accept = true ∧ p.transmitList = w.port.transmitList.tail) ∧
      Books c (w.offer p pkt accept) ∧ Flags p ∧ p.retryPending = !accept ∧
      p.signals = w.port.signals ∧ ∀ j,
        (p.states j).map account = (w.port.states j).map account := by
  obtain ⟨i, l, hl⟩ := exists_cons_of_ne_nil hne
  have hq := h.queued
  rw [hl] at hq
  obtain ⟨owed, ho⟩ : ∃ owed, w.owed = owed := ⟨_, rfl⟩
  rw [ho] at hq
  cases hq with
  | cons hcall hst hcmd ha hat hrest =>
    rename_i m call st q rest
    have hpkt : st.createPacket i = ⟨i, call.cmd, q⟩ := by
      simp only [ReqState.createPacket, addr, size, hat.curAddr,
        hat.curSize, hcmd]
    have hhead : w.owed.head? = some (st.createPacket i) := by
      rw [ho, hpkt]
      rfl
    have hfront : w.port.transmitList.head? = some (st.createPacket i).senderState := by
      rw [hl]
      rfl
    have hheld : ∀ r, w.port.inRetry = some r → r = st.createPacket i := fun r hr =>
      Option.some.inj ((h.held r hr).symm.trans hhead)
    have hil : i ∉ l := (nodup_cons.1 (hl ▸ h.nodup)).1
    cases accept with
    | false =>
      refine ⟨_, _, trySendTimingReq_refused hl hst hheld, hhead, hfront, .inl rfl, ?_, ?_,
        rfl, rfl, fun _ => rfl⟩
      · exact { h with held := fun r hr => by cases hr; exact hhead }
      · exact ⟨fun _ => he, fun hs => absurd (hs.symm.trans he) (by simp), fun _ => .inr rfl, fun _ => rfl⟩
    | true =>
      refine ⟨_, _, trySendTimingReq_taken hl hst hheld hp he, hhead, hfront, ?_, ?_, ?_,
        hp, rfl, ?_⟩
      · rw [hl]
        unfold leftover
        split
        · exact .inr ⟨rfl, rfl⟩
        · exact .inl rfl
      · constructor
        · intro j hj
          have hji : j ≠ i := by
            have := (List.getElem?_eq_some_iff.1 hcall).1
            exact fun he => absurd (he ▸ hj : w.calls.length ≤ i) (by omega)
          show update w.port.states i _ j = none
          rw [update_of_ne hji]
          exact h.fresh j hj
        · unfold leftover
          split
          · exact (nodup_cons.1 (hl ▸ h.nodup)).2
          · exact hl ▸ h.nodup
        · show Queued c w.calls (update w.port.states i _) (leftover i l st)
            w.owed.tail
          rw [ho]
          exact .sent hc hrest hcall hcmd ha hat hil
        · intro r hr
          cases hr
        · show (w.port.pendingCount + 1) % 2 ^ 32 = (w.inFlight ++ [_]).length
          rw [h.counted, length_append]
          exact Nat.mod_eq_of_lt (hroom rfl)
      · exact ⟨fun hs => absurd (hs.symm.trans hp) (by simp), fun hs => by simpa using hs,
          fun hs => .inl (by simpa using hs), absurd rfl⟩
      · intro j
        by_cases hj : j = i
        · subst hj
          show (update w.port.states j _ j).map account = _
          rw [update_self, hst]
          rfl
        · show (update w.port.states i _ j).map account = _
          rw [update_of_ne hj]

end Steps

end Gem5Cxl.L3.ChunkRuns
