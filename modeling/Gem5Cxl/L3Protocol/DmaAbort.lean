import Gem5Cxl.L3Protocol.DmaRuns

/-!
# Aborted DMA requests in timing mode

`handleResp` ends an aborted request on the response that leaves no packet of
the port in flight, and not on the one that leaves no packet of the request in
flight. When other requests have packets in flight at that moment, nothing will
ever look at the aborted request again.

* `abortPending_eq`, `handleResp_answer`: what an abort and a response do to the
  port.
* `accounted`: the promises of `DmaRuns.Accounted` hold along every run in which
  the last packet in flight of an aborted request is answered while no other
  packet is in flight (`Alone`).
* `aborted_leaks`: two requests in flight when one of them is aborted.
-/
namespace Gem5Cxl.L3.DmaAbort

open Core L1 L2 L3.ChunkRuns L3.DmaRuns ChunkPort
open List hiding lookup

/-- The device is a `CXLDevice`, the generator can walk the region of each action,
`pendingCount` does not wrap, and the last packet in flight of an aborted request
is answered when it is the only packet in flight. -/
def Alone (c : Nat) (owner : DmaOwner) (s : Sys) : Ev → Prop
  | .dmaAction call _ _ _ =>
    (∃ d, owner = .cxlDevice d) ∧ ChunkGenerator.Fits c call.addr call.size ∧
      s.world.inFlight.length + 1 < 2 ^ 32
  | .sendEvent _ => s.world.inFlight.length + 1 < 2 ^ 32
  | .retry _ => s.world.inFlight.length + 1 < 2 ^ 32
  | .response pkt =>
    pkt.senderState ∈ s.aborted → ofState pkt.senderState s.world.inFlight = [pkt] →
      s.world.inFlight = [pkt]
  | .abortPending => True

/-! ## What `abortPending` does to the port -/

/-- The signals that an abort adds: one for each deleted request with an abort event. -/
structure AbortSignals (states : Nat → Option ReqState) (gone : Nat → Prop) (sig : List Signal) :
    Prop where
  completions : ∀ i, completions i sig = []
  kept : ∀ i, ¬ gone i → aborts i sig = []
  gone : ∀ i st, gone i → states i = some st → aborts i sig = st.abortEvent.toList

open DmaPort in
theorem discardAll_eq (l : List Nat) (p : ChunkPort) (hn : l.Nodup)
    (hs : ∀ i ∈ l, ∃ st, p.states i = some st) :
    ∃ sig, discardAll l p = .ok
        { p with
          transmitList := []
          states := fun j => if j ∈ l then none else p.states j
          signals := p.signals ++ sig } ∧
      AbortSignals p.states (· ∈ l) sig := by
  induction l generalizing p with
  | nil =>
    exact ⟨[], by simp [discardAll], fun _ => rfl, fun _ _ => rfl,
      fun _ _ h => absurd h not_mem_nil⟩
  | cons i l ih =>
    obtain ⟨hi, hn⟩ := nodup_cons.1 hn
    obtain ⟨st, hst⟩ := hs i mem_cons_self
    have hsame : ∀ j ∈ l, (DmaPort.discard p i st).states j = p.states j := by
      intro j hj
      simp only [DmaPort.discard, release_eq, delete]
      exact Function.update_of_ne (ne_of_mem_of_not_mem hj hi) ..
    obtain ⟨sig, hd, hsig⟩ := ih { DmaPort.discard p i st with transmitList := l } hn fun j hj =>
      (hs j (mem_cons_of_mem _ hj)).imp fun _ => (hsame j hj).trans
    refine ⟨(st.abortEvent.map (.abort i)).toList ++ sig, ?_, ?_, ?_, ?_⟩
    · simp only [discardAll, lookup, hst, ok_bind]
      rw [hd]
      simp only [DmaPort.discard, release_eq, delete, append_assoc]
      congr 2
      funext j
      by_cases hj : j = i
      · simp [hj]
      · simp [hj]
    · intro j
      rw [completions_append, completions_abort, hsig.completions, append_nil]
    · intro j hj
      obtain ⟨hji, hjl⟩ : j ≠ i ∧ j ∉ l := by simpa using hj
      rw [aborts_append, aborts_abort, if_neg hji, hsig.kept j hjl, append_nil]
    · intro j stj hj hstj
      rcases mem_cons.1 hj with rfl | hj
      · rw [hst] at hstj
        cases hstj
        rw [aborts_append, aborts_abort, if_pos rfl, hsig.kept _ hi, append_nil]
      · rw [aborts_append, aborts_abort, if_neg (ne_of_mem_of_not_mem hj hi)]
        exact hsig.gone j stj hj ((hsame j hj).trans hstj)

/-- The port without its requests, but for the states of those in `live`. -/
def emptied (p : ChunkPort) (live : Nat → Prop) [DecidablePred live] (sig : List Signal) :
    ChunkPort :=
  { p with
    inRetry := none
    transmitList := []
    states := fun j =>
      if j ∈ p.transmitList then
        if live j then (p.states j).map ({ · with aborted := true }) else none
      else p.states j
    signals := p.signals ++ sig }

variable {p : ChunkPort} {i : Nat} {st : ReqState}

theorem emptied_listed {live : Nat → Prop} [DecidablePred live] {sig : List Signal}
    (hi : i ∈ p.transmitList) : (emptied p live sig).states i =
      if live i then (p.states i).map ({ · with aborted := true }) else none := if_pos hi

theorem emptied_other {live : Nat → Prop} [DecidablePred live] {sig : List Signal}
    (hi : i ∉ p.transmitList) : (emptied p live sig).states i = p.states i := if_neg hi

/-- The port after `preserve`: the requests of `live` are off the list. -/
def preserved (p : ChunkPort) (live : Nat → Prop) [DecidablePred live] : ChunkPort :=
  { p with
    transmitList := p.transmitList.filter fun j => ¬ live j
    states := fun j =>
      if j ∈ p.transmitList ∧ live j then (p.states j).map ({ · with aborted := true }) else p.states j }

section Abort

variable {live : Nat → Prop} [DecidablePred live]

theorem preserved_eq_self (h : ∀ j ∈ p.transmitList, ¬ live j) : preserved p live = p := by
  have hlist : p.transmitList.filter (fun j => ¬ live j) = p.transmitList := filter_eq_self.2 (by simpa using h)
  have hstates : (preserved p live).states = p.states := funext fun j => if_neg fun hj => h j hj.1 hj.2
  have heq : preserved p live = { p with
      transmitList := p.transmitList.filter fun j => ¬ live j, states := (preserved p live).states } := rfl
  rw [heq, hlist, hstates]

variable (hn : p.transmitList.Nodup) (hs : ∀ i ∈ p.transmitList, ∃ st, p.states i = some st)
  (hfront : ∀ i l st, p.transmitList = i :: l → p.states i = some st →
    (live i ↔ p.pendingCount ≠ 0 ∧ st.numBytes ≠ st.gen.complete))
  (htail : ∀ i ∈ p.transmitList.tail, ¬ live i)
include hn hs hfront htail

omit hn in
theorem preserve_eq : DmaPort.preserve p = .ok (preserved p live) := by
  unfold DmaPort.preserve
  split
  · rename_i hl
    rw [preserved_eq_self (by simp [hl])]
  · rename_i i l hl
    obtain ⟨st, hst⟩ := hs i (by simp [hl])
    have hf := hfront i l st hl hst
    have htl : ∀ j ∈ l, ¬ live j := fun j hj => htail j (by rw [hl]; exact hj)
    simp only [lookup, hst, ok_bind]
    by_cases hlive : live i
    · obtain ⟨hp, hb⟩ := hf.1 hlive
      have hlist : (i :: l).filter (fun j => ¬ live j) = l := by
        rw [filter_cons_of_neg (by simpa using hlive)]
        exact filter_eq_self.2 (by simpa using htl)
      rw [if_neg hp, if_pos hb, preserved, hl, hlist]
      congr 2
      funext j
      by_cases hj : j = i
      · simp [setState, hj, hlive, hst]
      · by_cases hjl : j ∈ l
        · simp [setState, hj, hjl, htl j hjl]
        · simp [setState, hj, hjl]
    · rw [preserved_eq_self (by rw [hl]; exact forall_mem_cons.2 ⟨hlive, htl⟩)]
      split
      · rfl
      · rename_i hp
        rw [if_neg fun hb => hlive (hf.2 ⟨hp, hb⟩)]

variable (live) in
open DmaPort in
/-- `live` are the requests of which `abortPending` keeps the state: at most the first one. -/
theorem abortPending_eq :
    ∃ sig, abortPending p = .ok { emptied p live sig with sendEvent := false } ∧
      AbortSignals p.states (fun i => i ∈ p.transmitList ∧ ¬ live i) sig := by
  let q := preserved { p with inRetry := none } live
  have hq : preserve { p with inRetry := none } = .ok q := preserve_eq hs hfront htail
  have hstates : ∀ i, ¬ live i → q.states i = p.states i := fun i hi => if_neg fun hx => hi hx.2
  have hmem : ∀ i, i ∈ p.transmitList.filter (fun j => ¬ live j) ↔ i ∈ p.transmitList ∧ ¬ live i := by simp
  obtain ⟨sig, hd, hsig⟩ := discardAll_eq q.transmitList q (hn.filter _) (by
    intro i hi
    obtain ⟨hi, hlive⟩ := (hmem i).1 hi
    obtain ⟨st, hst⟩ := hs i hi
    exact ⟨st, (hstates i hlive).trans hst⟩)
  refine ⟨sig ++ drainSignals p.pendingCount, ?_, ?_, ?_, ?_⟩
  · simp only [abortPending, hq, hd, ok_bind, signalIfDrained_eq, append_assoc]
    simp only [q, preserved, emptied]
    congr 2
    funext j
    by_cases hj : j ∈ p.transmitList
    · by_cases hlive : live j
      · simp [hj, hlive]
      · simp [hj, hlive]
    · simp [hj]
  · intro i
    rw [completions_append, hsig.completions, completions_drain, append_nil]
  · intro i hi
    rw [aborts_append, hsig.kept i fun hx => hi ((hmem i).1 hx), aborts_drain, append_nil]
  · intro i st hi hst
    rw [aborts_append, hsig.gone i st ((hmem i).2 hi) ((hstates i hi.2).trans hst), aborts_drain, append_nil]

end Abort

/-! ## Responses -/

/-- The response that leaves `n` packets of the port in flight ends the request. -/
def Ends (st : ReqState) (n : Nat) : Prop :=
  st.totBytes = st.numBytes ∨ st.aborted = true ∧ n = 0
  deriving Decidable

/-- What a response to a packet of request `i` does to the port; `st` is the state of the
request with the bytes added. -/
structure Answer (p p' : ChunkPort) (i : Nat) (st : ReqState) : Prop where
  frame : p'.transmitList = p.transmitList ∧ p'.inRetry = p.inRetry ∧
    p'.retryPending = p.retryPending ∧ p'.sendEvent = p.sendEvent
  count : p'.pendingCount = p.pendingCount - 1
  others : ∀ j, j ≠ i → p'.states j = p.states j ∧
    completions j p'.signals = completions j p.signals ∧ aborts j p'.signals = aborts j p.signals
  kept : ¬ Ends st (p.pendingCount - 1) → p'.states i = some st ∧
    completions i p'.signals = completions i p.signals ∧ aborts i p'.signals = aborts i p.signals
  gone : Ends st (p.pendingCount - 1) → p'.states i = none ∧
    (st.aborted = true → aborts i p'.signals = aborts i p.signals ++ st.abortEvent.toList) ∧
    (st.aborted = false →
      completions i p'.signals = completions i p.signals ++ st.completionEvent.toList)

/-- The event that the end of a request schedules. -/
def endSignal (i delay : Nat) (st : ReqState) : Option Signal :=
  if st.aborted then st.abortEvent.map (.abort i)
  else st.completionEvent.map (.completion i · (delay + st.delay))

theorem finish_eq (p : ChunkPort) (i : Nat) (st : ReqState) (delay : Nat) :
    p.finish i st delay =
      if Ends st p.pendingCount then p.release i (endSignal i delay st) else p := by
  cases ha : st.aborted <;> simp [finish, Ends, endSignal, ha]

theorem signals_end {j delay : Nat} (h : j ≠ i) :
    completions j (endSignal i delay st).toList = [] ∧
      aborts j (endSignal i delay st).toList = [] := by
  unfold endSignal
  split
  · exact ⟨completions_abort .., (aborts_abort ..).trans (if_neg h)⟩
  · exact ⟨(completions_completion ..).trans (if_neg h), aborts_completion ..⟩

theorem handleResp_answer {size delay : Nat}
    (hp : p.pendingCount ≠ 0) (hs : p.states i = some st) (hb : st.numBytes + size ≤ st.totBytes)
    (ht : st.totBytes < 2 ^ 64) :
    ∃ p', p.handleResp i size delay = .ok p' ∧ Answer p p' i (ChunkPort.answered st size) := by
  refine ⟨_, handleResp_eq hp hs hb ht, ?_⟩
  rw [finish_eq, signalIfDrained_eq, setState]
  split
  · rename_i he
    rw [release_eq, delete]
    refine ⟨⟨rfl, rfl, rfl, rfl⟩, rfl, ?_, absurd he, fun _ => ⟨?_, ?_, ?_⟩⟩
    · intro j hj
      have hsj := @signals_end i (ChunkPort.answered st size) j delay hj
      refine ⟨by simp [hj], ?_, ?_⟩
      · simp [hsj.1]
      · simp [hsj.2]
    · simp
    · intro hab
      simp [endSignal, hab, aborts_abort]
    · intro hab
      simp [endSignal, hab, completions_completion]
  · rename_i he
    refine ⟨⟨rfl, rfl, rfl, rfl⟩, rfl, ?_, fun _ => ⟨?_, ?_, ?_⟩, fun hn => absurd hn he⟩
    · intro j hj
      exact ⟨by simp [hj], by simp, by simp⟩
    · simp
    · simp
    · simp

section Response

variable {c : Nat} {s : Sys} {pkt : ChunkPacket}

/-- The system after a response, when the port has become `p`. -/
def answered (s : Sys) (pkt : ChunkPacket) (p : ChunkPort) : Sys :=
  { s with
    world := { s.world with port := p, inFlight := s.world.inFlight.erase pkt }
    answered := s.answered ++ [pkt] }

theorem ofState_erase (hin : pkt ∈ s.world.inFlight) (i : Nat) :
    (ofState i s.world.inFlight).Perm
      (ofState i [pkt] ++ ofState i (s.world.inFlight.erase pkt)) := by
  rw [← ofState_append]
  exact (perm_cons_erase hin).filter _

theorem ofState_erase_other (hin : pkt ∈ s.world.inFlight) (hi : pkt.senderState ≠ i) :
    ofState i (s.world.inFlight.erase pkt) = [] ↔ ofState i s.world.inFlight = [] := by
  have hp := ofState_erase hin i
  rw [ofState_other hi] at hp
  exact ⟨fun h => (h ▸ hp).eq_nil, fun h => (h ▸ hp).nil_eq.symm⟩

/-- Whom a response is for, and what the request still waits for after it. -/
theorem receiver (hc : 0 < c) (h : Account c s) (hin : pkt ∈ s.world.inFlight) :
    ∃ call ev st cut, s.world.calls[pkt.senderState]? = some call ∧
      s.events[pkt.senderState]? = some ev ∧ s.world.port.states pkt.senderState = some st ∧
      Open s pkt.senderState call ev st ∧ (cut = [] ↔ pkt.senderState ∉ s.aborted) ∧
      (ChunkPort.answered st pkt.chunk.size).numBytes =
        bytesOf pkt.senderState (s.answered ++ [pkt]) ∧
      st.numBytes + pkt.chunk.size ≤ st.totBytes ∧ st.totBytes < 2 ^ 64 ∧
      (st.totBytes = (ChunkPort.answered st pkt.chunk.size).numBytes ↔
        ofState pkt.senderState (s.world.inFlight.erase pkt) ++
          (ofState pkt.senderState s.world.owed ++ cut) = []) := by
  have hself : ofState pkt.senderState [pkt] = [pkt] := ofState_self rfl
  have hlt := h.known pkt (h.wire.symm.subset (mem_append_right _ hin))
  obtain ⟨call, hcall⟩ : ∃ call, s.world.calls[pkt.senderState]? = some call :=
    ⟨_, getElem?_eq_getElem hlt⟩
  obtain ⟨ev, hev⟩ := h.exists_event hcall
  obtain ⟨st, hst⟩ := Option.ne_none_iff_exists'.1 fun hnone =>
    ofState_eq_nil.1 (h.closed _ ev hev hnone).landed pkt hin rfl
  have ho := h.opened _ call ev st hcall hev hst
  obtain ⟨cut, hsplit, hcut⟩ := h.split hcall
  have hbytes : st.numBytes + pkt.chunk.size = bytesOf pkt.senderState (s.answered ++ [pkt]) := by
    rw [ho.bytes]
    simp [bytesOf, hself]
  -- the packets of the request: the answered ones with this one, and the rest
  have hsplit' : (ofState pkt.senderState (s.answered ++ [pkt]) ++
      (ofState pkt.senderState (s.world.inFlight.erase pkt) ++
        (ofState pkt.senderState s.world.owed ++ cut))).Perm (packets c pkt.senderState call) := by
    refine .trans ?_ hsplit
    rw [ofState_append, append_assoc]
    refine .append_left _ ?_
    rw [← append_assoc]
    exact (ofState_erase hin _).symm.append_right _
  obtain ⟨hsum, -⟩ := bytes_of_split hc hsplit'
  have hpos := (bytes_of_split hc (perm_append_comm.trans hsplit')).2
  have hne : ofState pkt.senderState (s.answered ++ [pkt]) ≠ [] := by
    rw [ofState_append, hself]
    simp
  have hbound := (h.bounds call (mem_of_getElem? hcall)).2
  have hb' := hbytes
  rw [bytesOf] at hb'
  have htot := ho.total
  refine ⟨call, ev, st, cut, hcall, hev, hst, ho, hcut, hbytes, by omega, by omega, ?_⟩
  show st.totBytes = st.numBytes + pkt.chunk.size ↔ _
  constructor
  · intro heq
    by_contra hrest
    have := hpos hrest hne
    omega
  · intro hnil
    rw [hnil, map_nil, bytes_nil] at hsum
    omega

/-- The response ends its request when the request has no packet left: by design for a request
that was not aborted, by the condition for one that was. -/
theorem ends_iff (h : Account c s) {call : Call} {ev : Events} {cut : List ChunkPacket}
    (hin : pkt ∈ s.world.inFlight)
    (hg : pkt.senderState ∈ s.aborted → ofState pkt.senderState s.world.inFlight = [pkt] →
      s.world.inFlight = [pkt])
    (ho : Open s pkt.senderState call ev st) (hcut : cut = [] ↔ pkt.senderState ∉ s.aborted)
    (hall : st.totBytes = (ChunkPort.answered st pkt.chunk.size).numBytes ↔
      ofState pkt.senderState (s.world.inFlight.erase pkt) ++
        (ofState pkt.senderState s.world.owed ++ cut) = []) :
    Ends (ChunkPort.answered st pkt.chunk.size) (s.world.inFlight.length - 1) ↔
      ofState pkt.senderState (s.world.inFlight.erase pkt) = [] ∧
        pkt.senderState ∉ s.world.port.transmitList := by
  have hlen := length_erase_of_mem hin
  by_cases hab : pkt.senderState ∈ s.aborted
  · have hoff := (h.off _ hab).2
    have hnot : ¬ st.totBytes = (ChunkPort.answered st pkt.chunk.size).numBytes := by
      intro hnil
      have hc : cut = [] := by simp_all
      exact hcut.1 hc hab
    constructor
    · intro he
      have h0 := (he.resolve_left hnot).2
      have hnil : s.world.inFlight.erase pkt = [] := length_eq_zero_iff.1 (hlen.trans h0)
      exact ⟨by rw [hnil]; rfl, hoff⟩
    · intro hnil
      have hp := ofState_erase hin pkt.senderState
      rw [ofState_self rfl, hnil.1] at hp
      have hone := hg hab (perm_singleton.1 hp)
      refine .inr ⟨ho.aborted.2 hab, ?_⟩
      rw [hone]
      rfl
  · have hrun : (ChunkPort.answered st pkt.chunk.size).aborted ≠ true := fun ha => hab (ho.aborted.1 ha)
    rw [hcut.2 hab, append_nil] at hall
    constructor
    · intro he
      have hnil := hall.1 (he.resolve_right fun hx => hrun hx.1)
      obtain ⟨h1, h2⟩ := append_eq_nil_iff.1 hnil
      exact ⟨h1, fun hm => h.books.queued.ofState_ne_nil _ hm h2⟩
    · intro hnil
      refine .inl (hall.2 ?_)
      rw [hnil.1, h.owed_nil hnil.2]
      rfl

/-- A response to a packet keeps the books, if its request does not end while it is listed. -/
theorem books_answered (h : Books c s.world)
    (hin : pkt ∈ s.world.inFlight) (hst : s.world.port.states pkt.senderState = some st)
    (ha : Answer s.world.port p pkt.senderState (ChunkPort.answered st pkt.chunk.size))
    (hknown : ∀ i, s.world.calls.length ≤ i → i ≠ pkt.senderState)
    (hlisted : pkt.senderState ∈ s.world.port.transmitList →
      ¬ Ends (ChunkPort.answered st pkt.chunk.size) (s.world.port.pendingCount - 1)) :
    Books c (answered s pkt p).world := by
  have hlist := ha.frame.1
  refine ⟨?_, hlist ▸ h.nodup, ?_, ?_, ?_⟩
  · intro j hj
    exact (ha.others j (hknown j hj)).1.trans (h.fresh j hj)
  · show Queued c s.world.calls p.states p.transmitList s.world.owed
    rw [hlist]
    refine h.queued.congr_states fun j hj st' hst' => ?_
    by_cases hji : j = pkt.senderState
    · subst hji
      cases hst.symm.trans hst'
      exact ⟨_, (ha.kept (hlisted hj)).1, rfl, rfl⟩
    · exact ⟨st', (ha.others j hji).1.trans hst', rfl, rfl⟩
  · intro r hr
    exact h.held r (ha.frame.2.1 ▸ hr)
  · exact ha.count.trans (by rw [h.counted]; exact (length_erase_of_mem hin).symm)

theorem answer (hc : 0 < c) (h : Account c s) (hin : pkt ∈ s.world.inFlight)
    (hg : pkt.senderState ∈ s.aborted → ofState pkt.senderState s.world.inFlight = [pkt] →
      s.world.inFlight = [pkt]) :
    ∃ p st, DmaPort.recvTimingResp s.world.port pkt = .ok p ∧
      Answer s.world.port p pkt.senderState st ∧ Account c (answered s pkt p) := by
  obtain ⟨call, ev, st, cut, hcall, hev, hst, ho, hcut, hbytes, hle, hlt, hall⟩ := receiver hc h hin
  have hpend : s.world.port.pendingCount ≠ 0 := by
    rw [h.books.counted]
    exact (length_pos_of_mem hin).ne'
  obtain ⟨p, hresp, ha⟩ := handleResp_answer hpend hst hle hlt
  refine ⟨p, _, hresp, ha, ?_⟩
  have hends := ends_iff h hin hg ho hcut hall
  rw [← h.books.counted] at hends
  have hlist := ha.frame.1
  have hsame : ∀ i, i ≠ pkt.senderState → Same s (answered s pkt p) i := by
    intro i hi
    refine ⟨?_, .rfl, (ha.others i hi).2.1, (ha.others i hi).2.2⟩
    show bytesOf i (s.answered ++ [pkt]) = bytesOf i s.answered
    rw [bytesOf, ofState_append, ofState_other (.symm hi), append_nil, bytesOf]
  have hknown : ∀ i, s.world.calls.length ≤ i → i ≠ pkt.senderState := by
    have := (List.getElem?_eq_some_iff.1 hcall).1
    exact fun i hi he => absurd (he ▸ hi : s.world.calls.length ≤ pkt.senderState) (by omega)
  have hkept : ∀ st', p.states pkt.senderState = some st' →
      ¬ Ends (ChunkPort.answered st pkt.chunk.size) (s.world.port.pendingCount - 1) := by
    intro st' hst' he
    cases (ha.gone he).1.symm.trans hst'
  have hbooks : Books c (answered s pkt p).world :=
    books_answered h.books hin hst ha hknown fun hm he => (hends.1 he).2 hm
  refine ⟨hbooks, h.events, h.bounds, ?_, h.known, hlist ▸ h.off, h.plan, hlist ▸ h.unsent, ?_, ?_, ?_⟩
  · refine h.wire.trans ?_
    show (s.answered ++ s.world.inFlight).Perm ((s.answered ++ [pkt]) ++ s.world.inFlight.erase pkt)
    rw [append_assoc]
    exact (perm_cons_erase hin).append_left _
  · intro i hi
    obtain ⟨-, h1, h2⟩ := ha.others i (hknown i hi)
    exact ⟨h1.trans (h.silent i hi).1, h2.trans (h.silent i hi).2⟩
  · intro i call' ev' st' hcall' hev' hst'
    by_cases hi : i = pkt.senderState
    · subst hi
      have hn := hkept st' hst'
      obtain ⟨hs, h1, h2⟩ := ha.kept hn
      cases hs.symm.trans hst'
      cases hcall.symm.trans hcall'
      cases hev.symm.trans hev'
      refine ⟨ho.total, hbytes, ho.aborted, ho.completion, ho.abort, ?_, h1.trans ho.silent.1,
        h2.trans ho.silent.2⟩
      rw [hends] at hn
      by_cases hm : pkt.senderState ∈ s.world.port.transmitList
      · exact .inr (hlist ▸ hm)
      · exact .inl fun hnil => hn ⟨hnil, hm⟩
    · have ho' := h.opened i call' ev' st' hcall' hev' ((ha.others i hi).1 ▸ hst')
      refine ho'.same (hsame i hi) rfl (ho'.waits.imp ?_ fun hm => hlist ▸ hm)
      exact fun hw hnil => hw ((ofState_erase_other hin (.symm hi)).1 hnil)
  · intro i ev' hev' hst'
    by_cases hi : i = pkt.senderState
    · subst hi
      have he := not_not.1 fun hn => Option.some_ne_none _ ((ha.kept hn).1.symm.trans hst')
      cases hev.symm.trans hev'
      obtain ⟨-, hab, hco⟩ := ha.gone he
      rw [ho.silent.1] at hco
      rw [ho.silent.2] at hab
      refine ⟨(hends.1 he).1, ?_, ?_⟩
      · intro hna
        have hf : st.aborted = false := by simpa using fun hx => hna (ho.aborted.1 hx)
        exact (hco hf).trans (congrArg Option.toList ho.completion)
      · intro hna
        exact (hab (ho.aborted.2 hna)).trans (congrArg Option.toList ho.abort)
    · have hcl := h.closed i ev' hev' ((ha.others i hi).1 ▸ hst')
      exact hcl.same (hsame i hi) ((ofState_erase_other hin (.symm hi)).2 hcl.landed)

end Response

/-! ## Aborts -/

section Abort

variable {c : Nat} {s : Sys}

/-- The test of `abortPending` on the first request: it has packets in flight. -/
theorem front_live (hc : 0 < c) (h : Account c s) {l : List Nat}
    (hl : s.world.port.transmitList = i :: l) (hst : s.world.port.states i = some st) :
    ofState i s.world.inFlight ≠ [] ↔
      s.world.port.pendingCount ≠ 0 ∧ st.numBytes ≠ st.gen.complete := by
  have hi : i ∈ s.world.port.transmitList := hl ▸ mem_cons_self
  have hab : i ∉ s.aborted := fun ha => (h.off i ha).2 hi
  have hq := h.books.queued
  have hnodup := h.books.nodup
  rw [hl] at hq hnodup
  obtain ⟨call, st', q, rest, m, hcall, hst', hstart, hat, howed, hrest⟩ := hq.front
  rw [hst] at hst'
  cases hst'
  obtain ⟨ev, hev⟩ := h.exists_event hcall
  have ho := h.opened i call ev st hcall hev hst
  have hm : ofState i m = [] := by
    refine ofState_eq_nil.2 fun r hr he => ?_
    exact (nodup_cons.1 hnodup).1 (he ▸ hrest.mem_of_packet r hr)
  have howed' : ofState i s.world.owed = (q :: rest).map (⟨i, call.cmd, ·⟩) := by
    rw [howed, ofState_append, hm]
    simp [ofState]
  obtain ⟨cut, hplan, hcut⟩ := h.plan i call hcall
  rw [hcut.2 hab, ofState_append, howed'] at hplan
  -- the generator has passed the bytes of the packets that were sent
  have hchunks : ChunkGenerator.chunks c call.addr call.size =
      (ofState i s.world.accepted).map (·.chunk) ++ q :: rest := by
    have hmap := congrArg (map (·.chunk)) hplan
    rw [packets] at hmap
    simpa [Function.comp_def] using hmap.symm
  have haddr := ChunkGenerator.addr_of_chunks hc hchunks
  have hacc : bytesOf i s.world.accepted = bytesOf i s.answered + bytesOf i s.world.inFlight :=
    (bytes_perm ((h.wire.filter _).map _)).trans (bytesOf_append ..)
  have hsum : bytesOf i s.world.accepted ≤ call.size := by
    have hb := congrArg bytes hchunks
    rw [ChunkGenerator.bytes_chunks hc, bytes_append] at hb
    rw [bytesOf]
    omega
  have hbound := h.bounds call (mem_of_getElem? hcall)
  have hcomplete : st.gen.complete = bytesOf i s.world.accepted := by
    rw [ChunkGenerator.complete, hat.curAddr, haddr, sub64, ← bytesOf]
    omega
  rw [hcomplete, ho.bytes, hacc]
  obtain ⟨cut', hsplit, -⟩ := h.split hcall
  constructor
  · intro hne
    have hperm := (perm_append_comm_assoc _ _ _).trans hsplit
    have hpos := (bytes_of_split hc hperm).2 hne (by rw [howed']; simp)
    refine ⟨?_, ?_⟩
    · rw [h.books.counted]
      intro h0
      rw [length_eq_zero_iff.1 h0] at hne
      exact hne rfl
    · have : 0 < bytesOf i s.world.inFlight := hpos
      omega
  · rintro ⟨-, hne⟩ hnil
    exact hne (by rw [bytesOf, bytesOf, hnil]; rfl)

/-- The requests of the transmit list are cut off; the first one stays while it has packets
in flight. -/
theorem abort (hc : 0 < c) (h : Account c s) (owner : DmaOwner) :
    ∃ s', step c owner s .abortPending = .ok s' ∧ Account c s' ∧ s'.world.port.transmitList = [] ∧
      s'.world.port.inRetry = none ∧ s'.world.port.sendEvent = false := by
  have htail : ∀ i ∈ s.world.port.transmitList.tail, ¬ ofState i s.world.inFlight ≠ [] := by
    intro i hi
    have hp := h.wireOf i
    rw [h.unsent i hi] at hp
    exact not_not.2 (append_eq_nil_iff.1 hp.nil_eq.symm).2
  obtain ⟨sig, hab, hsig⟩ := abortPending_eq (fun i => ofState i s.world.inFlight ≠ [])
    h.books.nodup (fun i => h.listed) (fun i l st => front_live hc h) htail
  refine ⟨_, bind_eq_ok.2 ⟨_, hab, rfl⟩, ?_, rfl, rfl, rfl⟩
  have hsignals : ∀ i, i ∉ s.world.port.transmitList ∨ ofState i s.world.inFlight ≠ [] →
      completions i (s.world.port.signals ++ sig) = completions i s.world.port.signals ∧
      aborts i (s.world.port.signals ++ sig) = aborts i s.world.port.signals := by
    intro i hi
    have hk := hsig.kept i fun hg => hi.elim (fun hn => hn hg.1) hg.2
    rw [completions_append, aborts_append, hsig.completions, hk]
    simp
  have hoff : ∀ i, s.world.calls.length ≤ i → i ∉ s.world.port.transmitList := fun i hi hm =>
    not_lt.2 hi (h.books.queued.lt_length i hm)
  refine ⟨⟨?_, nodup_nil, .nil, nofun, h.books.counted⟩, h.events, h.bounds, h.wire, h.known, ?_,
    ?_, ?_, ?_, ?_, ?_⟩
  · intro i hi
    exact (if_neg (hoff i hi)).trans (h.books.fresh i hi)
  · intro i hi
    refine ⟨?_, not_mem_nil⟩
    rcases mem_append.1 hi with hi | hi
    · exact (h.off i hi).1
    · exact h.books.queued.lt_length i hi
  · intro i call hcall
    obtain ⟨cut, hplan, hcut⟩ := h.plan i call hcall
    rw [ofState_append] at hplan
    rw [append_nil, mem_append, not_or]
    by_cases hi : i ∈ s.world.port.transmitList
    · refine ⟨ofState i s.world.owed ++ cut, by rw [← append_assoc, hplan], ?_⟩
      have hne := h.books.queued.ofState_ne_nil i hi
      exact iff_of_false (fun hx => hne (append_eq_nil_iff.1 hx).1) fun hx => hx.2 hi
    · rw [h.owed_nil hi, append_nil] at hplan
      exact ⟨cut, hplan, hcut.trans ⟨fun hx => ⟨hx, hi⟩, fun hx => hx.1⟩⟩
  · intro i hi
    exact absurd hi not_mem_nil
  · intro i hi
    obtain ⟨h1, h2⟩ := hsignals i (.inl (hoff i hi))
    exact ⟨h1.trans (h.silent i hi).1, h2.trans (h.silent i hi).2⟩
  · intro i call ev st hcall hev hst
    by_cases hi : i ∈ s.world.port.transmitList
    · obtain ⟨st', hst'⟩ := h.listed hi
      have ho := h.opened i call ev st' hcall hev hst'
      simp only [emptied_listed hi, hst'] at hst
      split at hst
      · rename_i hlive
        cases hst
        obtain ⟨h1, h2⟩ := hsignals i (.inr hlive)
        exact ⟨ho.total, ho.bytes, iff_of_true rfl (mem_append_right _ hi), ho.completion,
          ho.abort, .inl hlive, h1.trans ho.silent.1, h2.trans ho.silent.2⟩
      · cases hst
    · simp only [emptied_other hi] at hst
      have ho := h.opened i call ev st hcall hev hst
      obtain ⟨h1, h2⟩ := hsignals i (.inl hi)
      exact ho.same ⟨rfl, mem_append.trans (or_iff_left hi), h1, h2⟩ rfl (.inl (ho.waits.resolve_right hi))
  · intro i ev hev hst
    obtain ⟨call, hcall⟩ := h.exists_call hev
    by_cases hi : i ∈ s.world.port.transmitList
    · obtain ⟨st', hst'⟩ := h.listed hi
      have ho := h.opened i call ev st' hcall hev hst'
      simp only [emptied_listed hi, hst'] at hst
      split at hst
      · cases hst
      · rename_i hdead
        refine ⟨not_not.1 hdead, absurd (mem_append_right _ hi), fun _ => ?_⟩
        show aborts i (s.world.port.signals ++ sig) = ev.abort.toList
        rw [aborts_append, ho.silent.2, hsig.gone i st' ⟨hi, hdead⟩ hst', ho.abort, nil_append]
    · simp only [emptied_other hi] at hst
      have hcl := h.closed i ev hev hst
      obtain ⟨h1, h2⟩ := hsignals i (.inl hi)
      exact hcl.same ⟨rfl, mem_append.trans (or_iff_left hi), h1, h2⟩ hcl.landed

end Abort

/-! ## Runs -/

section Run

variable {k : Nat} {owner : DmaOwner} {s : Sys}

theorem inv_step (hk : k < 64) (h : Inv (2 ^ k) s) {e : Ev} (he : enabled s e)
    (hg : Alone (2 ^ k) owner s e) : ∃ s', step (2 ^ k) owner s e = .ok s' ∧ Inv (2 ^ k) s' := by
  have hc : 0 < 2 ^ k := Nat.two_pow_pos k
  cases e with
  | dmaAction call ev delay accept =>
    obtain ⟨⟨d, rfl⟩, hf, hroom⟩ := hg
    exact h.dmaAction hk d call ev delay accept he hf hroom
  | sendEvent accept => exact h.sendEvent hc owner accept he hg
  | retry accept => exact h.retry hc owner accept he hg
  | response pkt =>
    obtain ⟨p, st, hp, ha, hacc⟩ := answer hc h.account he hg
    refine ⟨_, bind_eq_ok.2 ⟨p, hp, rfl⟩, hacc, ?_⟩
    obtain ⟨h1, h2, h3, h4⟩ := ha.frame
    have hf := h.flags
    exact ⟨fun hr => h4.trans (hf.waits (h3 ▸ hr)), fun hs hl => hf.event (h4 ▸ hs) (h1 ▸ hl),
      fun hl => (hf.busy (h1 ▸ hl)).imp h4.trans h3.trans, fun hr => h3.trans (hf.held (h2 ▸ hr))⟩
  | abortPending =>
    obtain ⟨s', hs', hacc, h1, h2, h3⟩ := abort hc h.account owner
    refine ⟨s', hs', hacc, fun _ => h3, ?_, absurd h1, absurd h2⟩
    intro hs
    rw [h3] at hs
    cases hs

theorem inv_init (c : Nat) : Inv c {} := by
  refine ⟨⟨books_init c, rfl, ?_, .refl _, ?_, ?_, ?_, ?_, fun _ _ => ⟨rfl, rfl⟩, ?_, ?_⟩,
    flags_init⟩
  · intro call h
    cases h
  · intro r h
    cases h
  · intro i h
    cases h
  · intro i call h
    simp at h
  · intro i h
    cases h
  · intro i call ev st h
    simp at h
  · intro i ev h
    simp at h

end Run

/-- **Aborted requests are accounted for**, along every run in which the last packet in flight
of an aborted request is answered while no other packet is in flight. -/
theorem accounted {k : Nat} (hk : k < 64) {owner : DmaOwner} {x : Except Fault Sys}
    (hr : ((machine (2 ^ k) owner).under (Alone (2 ^ k) owner)).Reachable x) :
    ∃ s, x = .ok s ∧ Accounted (2 ^ k) s := by
  obtain ⟨s, hs, hi⟩ := Machine.total (fun s hs => hs ▸ inv_init _)
    (fun s e h he hg => inv_step hk h he hg) hr
  exact ⟨s, hs, hi.account.settles⟩

instance (s : Sys) (e : Ev) : Decidable (enabled s e) := by
  cases e <;> dsimp only [enabled] <;> infer_instance

instance (c : Nat) (d : CxlDev) (s : Sys) (e : Ev) : Decidable (Alone c (.cxlDevice d) s e) :=
  match e with
  | .dmaAction _ _ _ _ => decidable_of_iff' (_ ∧ _) (and_iff_right ⟨d, rfl⟩)
  | .sendEvent _ | .retry _ => inferInstanceAs (Decidable (_ < _))
  | .response _ => inferInstanceAs (Decidable (_ → _ → _))
  | .abortPending => isTrue trivial

/-- A request of two lines, aborted after its first packet. -/
def twoLines : Ev :=
  .dmaAction ⟨.writeReq, 0x80000000, 128⟩ { completion := some 1, abort := some 2 } 0 true

/-- It is released, and its abort event scheduled, when the packet is answered. -/
theorem accounted_two_lines :
    ∃ s, ((machine (2 ^ 6) (.cxlDevice {})).under (Alone (2 ^ 6) (.cxlDevice {}))).Reachable
      (.ok s) ∧
      s.aborted = [0] ∧ (s.world.port.states 0).isNone = true ∧
        aborts 0 s.world.port.signals = [2] ∧
      ∃ t, Except.ok s = (.ok t : Except Fault Sys) ∧ Accounted (2 ^ 6) t := by
  have hrun := fun {y} => Machine.under_decided (M := machine (2 ^ 6) (.cxlDevice {}))
    (P := fun s e => enabled s e ∧ Alone (2 ^ 6) (.cxlDevice {}) s e) (fun _ _ => id)
    [twoLines, .abortPending, .response ⟨0, .writeReq, ⟨0x80000000, 64⟩⟩] (y := y) (init_empty _ _)
  exact ⟨_, hrun rfl, rfl, rfl, rfl, accounted (by decide) (hrun rfl)⟩

/-- **An aborted request is lost.** A request of one line is in flight when a second one of two
lines is aborted after its first packet. The second one's packet is answered first, and then
the first one's: nothing is in flight, and the state of the aborted request is still there. -/
theorem aborted_leaks :
    ∃ s, (machine (2 ^ 6) (.cxlDevice {})).lts.Reachable (.ok s) ∧ s.aborted = [1] ∧
      s.world.inFlight = [] ∧ s.world.port.transmitList = [] ∧ s.world.port.pendingCount = 0 ∧
      (s.world.port.states 1).isSome = true ∧ ¬ Accounted (2 ^ 6) s := by
  have hrun := fun {y} => Machine.lts_decided (M := machine (2 ^ 6) (.cxlDevice {})) (P := enabled) (fun _ _ => id)
    [.dmaAction ⟨.writeReq, 0x80000000, 64⟩ { completion := some 1 } 0 true,
      .dmaAction ⟨.writeReq, 0x90000000, 128⟩ { completion := some 2 } 0 true, .abortPending,
      .response ⟨1, .writeReq, ⟨0x90000000, 64⟩⟩, .response ⟨0, .writeReq, ⟨0x80000000, 64⟩⟩]
    (y := y) (init_empty _ _)
  refine ⟨_, hrun rfl, rfl, rfl, rfl, rfl, rfl, ?_⟩
  intro h
  have hnone := (h.releases 1 { completion := some 2 } rfl (by decide) rfl).1
  exact absurd (congrArg Option.isSome hnone) (by decide)

end Gem5Cxl.L3.DmaAbort
