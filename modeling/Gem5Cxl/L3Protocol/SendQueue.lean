import Mathlib.Algebra.Order.Ring.Nat
import Gem5Cxl.L2Machine.PacketQueue

/-!
# Runs of a packet queue: order and wake-ups

Packets are numbered in the order in which they are enqueued
(`State.enqueued`); `State.sent` are those the peer has taken, in order. A run
is any interleaving of insertions, firings of the send event and retries, with
any answers of the peer; the peer does not call the queue from inside a send.

* `emplace_some`, `emplace_none`: where an insertion puts the packet.
* `Kept`: every packet enqueued is sent or in the list, once; the list is in
  order; and if it is not empty, the queue waits for a retry or its event is
  scheduled in time.
* `Inv.step`: every step keeps that, and no assertion fails, as long as no
  packet is enqueued for `MaxTick` (`Finite`).
* `forever_unsent`: a packet enqueued for `MaxTick`.
-/
namespace Gem5Cxl.L3.SendQueue

open Core L1 L2 PacketQueue List

structure State where
  queue : PacketQueue
  enqueued : Nat
  sent : List DeferredPacket
deriving Repr

inductive Event
  | schedSendTiming (pkt : Packet) (when : Nat)
  /-- The send event fires; the argument is the peer's answer. -/
  | processSendEvent (sent : Bool)
  | retry (sent : Bool)
  | advance (tick : Nat)
  | drain
deriving DecidableEq, Repr

def State.after (s : State) : PacketQueue × Option DeferredPacket → State
  | (q, dp) => { s with queue := q, sent := s.sent ++ dp.toList }

def step (s : State) : Event → Except Fault State
  | .schedSendTiming pkt when => do
    let q ← s.queue.schedSendTiming { pkt with id := s.enqueued } when
    .ok { s with queue := q, enqueued := s.enqueued + 1 }
  | .processSendEvent sent => do
    let r ← { s.queue with sendEvent := none }.processSendEvent sent
    .ok (s.after r)
  | .retry sent => do
    let r ← s.queue.retry sent
    .ok (s.after r)
  | .advance tick => .ok { s with queue := { s.queue with curTick := tick } }
  | .drain => .ok { s with queue := s.queue.drain }

/-- Packets are enqueued for the present or the future, and express snoops are not; the event
fires at its tick; the peer calls `retry` after a refusal. -/
def enabled (s : State) : Event → Prop
  | .schedSendTiming pkt when => s.queue.curTick ≤ when ∧ pkt.expressSnoop = false
  | .processSendEvent _ => s.queue.sendEvent = some s.queue.curTick
  | .retry _ => s.queue.waitingOnRetry = true
  | .advance tick => s.queue.curTick ≤ tick ∧ ∀ t, s.queue.sendEvent = some t → tick ≤ t
  | .drain => True

def machine : Machine State Event Fault where
  init s := ∃ forceOrder disableSanityCheck curTick,
    s = { queue := { forceOrder, disableSanityCheck, curTick }, enqueued := 0, sent := [] }
  enabled := enabled
  step := step

/-- No packet is enqueued for the tick that means "never". -/
def Finite (_ : State) : Event → Prop
  | .schedSendTiming _ when => when ≠ maxTick
  | _ => True

/-! ## What is asked -/

/-- Earlier, or at one tick and enqueued earlier. -/
def Sooner (a b : DeferredPacket) : Prop := a.tick < b.tick ∨ a.tick = b.tick ∧ a.pkt.id < b.pkt.id

/-- If they match, enqueued earlier. -/
def InTurn (a b : DeferredPacket) : Prop := a.pkt.matchAddr b.pkt = true → a.pkt.id < b.pkt.id

structure Kept (s : State) : Prop where
  once : ((s.sent ++ s.queue.transmitList).map fun dp => dp.pkt.id).Perm (List.range s.enqueued)
  sorted : s.queue.forceOrder = false → s.queue.transmitList.Pairwise Sooner
  matched : s.queue.forceOrder = true → (s.sent ++ s.queue.transmitList).Pairwise InTurn
  wakes : s.queue.waitingOnRetry = false → ∀ dp ∈ s.queue.transmitList.head?,
    ∃ t, s.queue.sendEvent = some t ∧ t ≤ max dp.tick (s.queue.curTick + 1)

/-! ## Insertion -/

section

open PacketQueue

variable {forceOrder : Bool} {when : Nat} {pkt : Packet} {l l' : List DeferredPacket}

theorem emplace_none (h : emplace forceOrder when pkt l = none) :
    ∀ dp ∈ l, holdsBack forceOrder when pkt dp = false := by
  induction l with
  | nil => exact fun dp hdp => absurd hdp not_mem_nil
  | cons dp l ih =>
    rw [emplace] at h
    cases hl : emplace forceOrder when pkt l with
    | some l' =>
      rw [hl] at h
      exact nomatch h
    | none =>
      rw [hl] at h
      have hdp : holdsBack forceOrder when pkt dp = false := by
        by_contra hb
        simp [hb] at h
      exact forall_mem_cons.2 ⟨hdp, ih hl⟩

theorem emplace_some (h : emplace forceOrder when pkt l = some l') :
    ∃ l₁ dp l₂, l = l₁ ++ dp :: l₂ ∧ l' = l₁ ++ dp :: ⟨when, pkt⟩ :: l₂ ∧
      holdsBack forceOrder when pkt dp = true ∧
      ∀ dp' ∈ l₂, holdsBack forceOrder when pkt dp' = false := by
  induction l generalizing l' with
  | nil => exact nomatch h
  | cons dp l ih =>
    rw [emplace] at h
    cases hl : emplace forceOrder when pkt l with
    | some l'' =>
      rw [hl] at h
      cases h
      obtain ⟨l₁, dp', l₂, rfl, rfl, hb, hafter⟩ := ih hl
      exact ⟨dp :: l₁, dp', l₂, rfl, rfl, hb, hafter⟩
    | none =>
      rw [hl] at h
      by_cases hb : holdsBack forceOrder when pkt dp = true
      · simp only [hb, if_true] at h
        cases h
        exact ⟨[], dp, l, rfl, rfl, hb, emplace_none hl⟩
      · simp [hb] at h

/-- The list with the packet in it, wherever that is. -/
def inserted (forceOrder : Bool) (when : Nat) (pkt : Packet) (l : List DeferredPacket) :
    List DeferredPacket :=
  (emplace forceOrder when pkt l).getD (⟨when, pkt⟩ :: l)

/-- Both cases of an insertion: some packets stay before the new one, the last of which holds it
back, and the others do not hold it back. -/
theorem inserted_split (forceOrder : Bool) (when : Nat) (pkt : Packet) (l : List DeferredPacket) :
    ∃ l₁ l₂, l = l₁ ++ l₂ ∧ inserted forceOrder when pkt l = l₁ ++ ⟨when, pkt⟩ :: l₂ ∧
      (∀ dp ∈ l₁.getLast?, holdsBack forceOrder when pkt dp = true) ∧
      ∀ dp ∈ l₂, holdsBack forceOrder when pkt dp = false := by
  rw [inserted]
  cases h : emplace forceOrder when pkt l with
  | none => exact ⟨[], l, rfl, rfl, by simp, emplace_none h⟩
  | some l' =>
    obtain ⟨l₁, dp, l₂, rfl, rfl, hb, hafter⟩ := emplace_some h
    exact ⟨l₁ ++ [dp], l₂, by simp, by simp, by simpa using hb, hafter⟩

theorem perm_inserted (forceOrder : Bool) (when : Nat) (pkt : Packet) (l : List DeferredPacket) :
    (inserted forceOrder when pkt l).Perm (⟨when, pkt⟩ :: l) := by
  obtain ⟨l₁, l₂, rfl, hins, -⟩ := inserted_split forceOrder when pkt l
  rw [hins]
  exact perm_middle

theorem sorted_inserted (h : l.Pairwise Sooner) (hid : ∀ dp ∈ l, dp.pkt.id < pkt.id) :
    (inserted false when pkt l).Pairwise Sooner := by
  obtain ⟨l₁, l₂, rfl, hins, hlast, hafter⟩ := inserted_split false when pkt l
  obtain ⟨h₁, h₂, h₁₂⟩ := pairwise_append.1 h
  -- in a sorted list the last packet before the new one bounds the ticks of all before it
  have hbefore : ∀ a ∈ l₁, Sooner a ⟨when, pkt⟩ := by
    intro a ha
    have hle : a.tick ≤ when := by
      obtain ⟨z, hz⟩ := Option.ne_none_iff_exists'.1
        (mt getLast?_eq_none_iff.1 (ne_nil_of_mem ha))
      have hzw : z.tick ≤ when := by simpa [holdsBack] using hlast z hz
      obtain ⟨init, rfl⟩ := getLast?_eq_some_iff.1 hz
      rcases mem_append.1 ha with ha | ha
      · have hs := (pairwise_append.1 h₁).2.2 a ha z mem_cons_self
        simp only [Sooner] at hs
        omega
      · rwa [mem_singleton.1 ha]
    have hid' := hid a (mem_append_left _ ha)
    simp only [Sooner]
    omega
  have hlater : ∀ b ∈ l₂, Sooner ⟨when, pkt⟩ b := by
    intro b hb
    left
    simpa [holdsBack] using hafter b hb
  rw [hins]
  refine pairwise_append.2 ⟨h₁, pairwise_cons.2 ⟨hlater, h₂⟩, fun a ha => ?_⟩
  exact forall_mem_cons.2 ⟨hbefore a ha, h₁₂ a ha⟩

theorem matchAddr_comm (p q : Packet) : p.matchAddr q = q.matchAddr p := by
  simp [Packet.matchAddr, eq_comm]

theorem matched_inserted {sent : List DeferredPacket} (h : (sent ++ l).Pairwise InTurn)
    (hid : ∀ dp ∈ sent ++ l, dp.pkt.id < pkt.id) :
    (sent ++ inserted true when pkt l).Pairwise InTurn := by
  obtain ⟨l₁, l₂, rfl, hins, -, hafter⟩ := inserted_split true when pkt l
  rw [hins, ← append_assoc]
  rw [← append_assoc] at h hid
  obtain ⟨h₁, h₂, h₁₂⟩ := pairwise_append.1 h
  refine pairwise_append.2 ⟨h₁, pairwise_cons.2 ⟨fun b hb hm => ?_, h₂⟩,
    fun a ha => ?_⟩
  · -- no packet behind the new one matches it
    have hb' := hafter b hb
    rw [matchAddr_comm] at hm
    simp [holdsBack, hm] at hb'
  · exact forall_mem_cons.2 ⟨fun _ => hid a (mem_append_left _ ha), h₁₂ a ha⟩

end

/-! ## The invariant -/

structure Inv (s : State) : Prop extends Kept s where
  finite : ∀ dp ∈ s.queue.transmitList, dp.tick ≠ maxTick
  event : ∀ t, s.queue.sendEvent = some t → s.queue.waitingOnRetry = false ∧ s.queue.curTick ≤ t ∧
    ∃ dp, s.queue.transmitList.head? = some dp ∧ dp.tick ≤ t
  ready : s.queue.waitingOnRetry = true →
    ∃ dp, s.queue.transmitList.head? = some dp ∧ dp.tick ≤ s.queue.curTick

variable {s s' : State} {q : PacketQueue}

theorem Kept.id_lt (h : Kept s) :
    ∀ dp ∈ s.sent ++ s.queue.transmitList, dp.pkt.id < s.enqueued := by
  intro dp hdp
  exact mem_range.1 (h.once.mem_iff.1 (mem_map.2 ⟨dp, hdp, rfl⟩))

variable {pkt : Packet} {when : Nat} {dp : DeferredPacket} {l : List DeferredPacket}

theorem Kept.once_inserted (h : Kept s) (hpkt : pkt.id = s.enqueued) :
    ((s.sent ++ inserted s.queue.forceOrder when pkt s.queue.transmitList).map
      fun dp => dp.pkt.id).Perm (List.range (s.enqueued + 1)) := by
  have hperm := (List.Perm.append_left s.sent
    (perm_inserted s.queue.forceOrder when pkt s.queue.transmitList)).map fun dp => dp.pkt.id
  refine hperm.trans ((perm_middle.map _).trans ?_)
  rw [map_cons, range_succ, hpkt]
  exact (h.once.cons _).trans (perm_append_singleton _ _).symm

section

variable (hw : q.waitingOnRetry = false)
include hw

theorem schedSendEvent_ok (hm : when ≠ maxTick) :
    ∃ t, q.schedSendEvent when = .ok { q with sendEvent := some t } ∧
      t ≤ max when (q.curTick + 1) ∧
      (q.sendEvent = some t ∨ t = max when (q.curTick + 1)) := by
  rw [schedSendEvent, if_neg (by simp [hw]), if_pos hm]
  cases hev : q.sendEvent with
  | none => exact ⟨_, rfl, le_rfl, .inr rfl⟩
  | some t₀ =>
    by_cases hlt : max when (q.curTick + 1) < t₀
    · exact ⟨_, by simp only [if_pos hlt], le_rfl, .inr rfl⟩
    · refine ⟨t₀, ?_, Nat.le_of_not_lt hlt, .inl rfl⟩
      simp only [if_neg hlt]
      rw [← hev]

theorem schedSendEvent_fresh (hm : when ≠ maxTick) (hev : q.sendEvent = none) :
    q.schedSendEvent when = .ok { q with sendEvent := some (max when (q.curTick + 1)) } := by
  rw [schedSendEvent, if_neg (by simp [hw]), if_pos hm, hev]

/-- With nothing to send, at most the end of a drain is signalled. -/
theorem schedSendEvent_maxTick :
    ∃ draining drainSignals, q.schedSendEvent maxTick =
      .ok { q with draining := draining, drainSignals := drainSignals } := by
  rw [schedSendEvent, if_neg (by simp [hw]), if_neg (not_not.2 rfl)]
  split
  · exact ⟨_, _, rfl⟩
  · exact ⟨_, _, rfl⟩

/-! ## Steps -/

theorem sendDeferredPacket_taken (hl : q.transmitList = dp :: l)
    (ht : dp.tick ≤ q.curTick) (hev : q.sendEvent = none) (hfin : ∀ d ∈ l, d.tick ≠ maxTick) :
    ∃ draining drainSignals, q.sendDeferredPacket true = .ok ({ q with
      transmitList := l, sendEvent :=
        l.head?.map fun d => max d.tick (q.curTick + 1), draining, drainSignals }, some dp) := by
  have hready : q.deferredPacketReady = true := by simp [deferredPacketReady, hl, ht]
  rw [sendDeferredPacket, if_neg (by simp [hw]), if_neg (by simp [hready]), hl]
  cases l with
  | nil =>
    obtain ⟨draining, n, hsched⟩ := schedSendEvent_maxTick (q := { q with transmitList := [] }) hw
    refine ⟨draining, n, bind_eq_ok.2 ⟨_, hsched, ?_⟩⟩
    rw [hev]
    rfl
  | cons d l =>
    have hsched := schedSendEvent_fresh (q := { q with transmitList := d :: l }) hw
      (hfin d mem_cons_self) hev
    exact ⟨_, _, bind_eq_ok.2 ⟨_, hsched, rfl⟩⟩

theorem sendDeferredPacket_refused (hl : q.transmitList = dp :: l) (ht : dp.tick ≤ q.curTick) :
    q.sendDeferredPacket false = .ok ({ q with waitingOnRetry := true }, none) := by
  have hready : q.deferredPacketReady = true := by simp [deferredPacketReady, hl, ht]
  rw [sendDeferredPacket, if_neg (by simp [hw]), if_neg (by simp [hready]), hl]
  simp

end

/-- What a send does to the state before it, the queue being `q` when it starts. -/
structure Attempt (s : State) (sent : Bool) (s' : State) : Prop where
  inv : Inv s'
  curTick_eq : s'.queue.curTick = s.queue.curTick
  enqueued_eq : s'.enqueued = s.enqueued
  result : ∃ dp l, s.queue.transmitList = dp :: l ∧
    (sent = true ∧ s'.sent = s.sent ++ [dp] ∧ s'.queue.transmitList = l ∧
        s'.queue.waitingOnRetry = false ∧ (∀ t, s'.queue.sendEvent = some t → s.queue.curTick < t) ∨
      sent = false ∧ s'.sent = s.sent ∧ s'.queue.transmitList = dp :: l)

/-- A send from a queue that neither waits nor has its event scheduled. -/
theorem Inv.attempt (hi : Inv s) (hhead : s.queue.transmitList.head? = some dp)
    (ht : dp.tick ≤ s.queue.curTick)
    (hq : q = { s.queue with waitingOnRetry := false, sendEvent := none }) (sent : Bool) :
    ∃ r, q.sendDeferredPacket sent = .ok r ∧ Attempt s sent (s.after r) := by
  obtain ⟨l, hl⟩ := head?_eq_some_iff.1 hhead
  have hfin : ∀ d ∈ l, d.tick ≠ maxTick := fun d hd => hi.finite d (by simp [hl, hd])
  subst hq
  cases sent with
  | false =>
    refine ⟨_, sendDeferredPacket_refused rfl hl ht, ?_, rfl, rfl, dp, l, hl, .inr ⟨rfl, ?_, hl⟩⟩
    · refine ⟨⟨?_, hi.sorted, ?_, nofun⟩, hi.finite, nofun, fun _ => ⟨dp, hhead, ht⟩⟩
      · simpa [State.after] using hi.once
      · simpa [State.after] using hi.matched
    · simp [State.after]
  | true =>
    obtain ⟨_, _, hrun⟩ := sendDeferredPacket_taken (q := { s.queue with waitingOnRetry := false, sendEvent := none })
      rfl hl ht rfl hfin
    refine ⟨_, hrun, ⟨⟨?_, ?_, ?_, ?_⟩, hfin, ?_, nofun⟩, rfl, rfl, dp, _, hl, .inl ⟨rfl, rfl, rfl, rfl, ?_⟩⟩
    · simpa [State.after, hl] using hi.once
    · intro hf
      have hsorted := hi.sorted hf
      rw [hl] at hsorted
      exact (pairwise_cons.1 hsorted).2
    · simpa [State.after, hl] using hi.matched
    · intro _ d hd
      exact ⟨_, Option.map_eq_some_iff.2 ⟨d, hd, rfl⟩, le_rfl⟩
    · intro t hst
      obtain ⟨d, hd, rfl⟩ := Option.map_eq_some_iff.1 hst
      exact ⟨rfl, (Nat.le_succ _).trans (le_max_right _ _), d, hd, le_max_left _ _⟩
    · intro t hst
      obtain ⟨d, -, rfl⟩ := Option.map_eq_some_iff.1 hst
      exact (Nat.lt_succ_self _).trans_le (le_max_right _ _)

structure Enqueue (s : State) (when : Nat) (s' : State) : Prop where
  inv : Inv s'
  curTick_eq : s'.queue.curTick = s.queue.curTick
  enqueued_eq : s'.enqueued = s.enqueued + 1
  sent_eq : s'.sent = s.sent
  waiting_eq : s'.queue.waitingOnRetry = s.queue.waitingOnRetry
  list_eq : ∃ pkt, pkt.id = s.enqueued ∧
    s'.queue.transmitList = inserted s.queue.forceOrder when pkt s.queue.transmitList
  event : ∀ t, s'.queue.sendEvent = some t → s.queue.sendEvent = some t ∨ s.queue.curTick < t

section

variable (hi : Inv s) (hpkt : pkt.id = s.enqueued) (hm : when ≠ maxTick)
include hi hpkt hm

theorem Inv.inserted (hl : l = inserted s.queue.forceOrder when pkt s.queue.transmitList) :
    ((s.sent ++ l).map fun dp => dp.pkt.id).Perm (List.range (s.enqueued + 1)) ∧
      (s.queue.forceOrder = false → l.Pairwise Sooner) ∧
      (s.queue.forceOrder = true → (s.sent ++ l).Pairwise InTurn) ∧
      ∀ dp ∈ l, dp.tick ≠ maxTick := by
  have hid : ∀ dp ∈ s.sent ++ s.queue.transmitList, dp.pkt.id < pkt.id := hpkt ▸ hi.id_lt
  subst hl
  refine ⟨hi.once_inserted hpkt, fun hf => ?_, fun hf => ?_, fun dp hdp => ?_⟩
  · rw [hf]
    exact sorted_inserted (hi.sorted hf) fun dp hdp => hid dp (mem_append_right _ hdp)
  · rw [hf]
    exact matched_inserted (hi.matched hf) hid
  · rcases mem_cons.1 ((perm_inserted ..).mem_iff.1 hdp) with rfl | hdp
    · exact hm
    · exact hi.finite dp hdp

theorem Inv.emplaced
    (hl : PacketQueue.emplace s.queue.forceOrder when pkt s.queue.transmitList = some l) :
    Enqueue s when
      { s with queue.transmitList := l, enqueued := s.enqueued + 1 } := by
  have hins : l = SendQueue.inserted s.queue.forceOrder when pkt s.queue.transmitList := by
    rw [SendQueue.inserted, hl]
    rfl
  obtain ⟨honce, hsorted, hmatched, hfin⟩ := hi.inserted hpkt hm hins
  have hhead : l.head? = s.queue.transmitList.head? := by
    obtain ⟨l₁, dp, l₂, h, rfl, -⟩ := emplace_some hl
    rw [h]
    cases l₁ <;> rfl
  refine ⟨⟨⟨honce, hsorted, hmatched, fun hw dp hdp => ?_⟩, hfin, fun t ht => ?_, fun hw => ?_⟩,
    rfl, rfl, rfl, rfl, ⟨pkt, hpkt, hins⟩, fun t ht => .inl ht⟩
  · exact hi.wakes hw dp (hhead ▸ hdp)
  · obtain ⟨hw, hcur, dp, hdp, hle⟩ := hi.event t ht
    exact ⟨hw, hcur, dp, hhead.trans hdp, hle⟩
  · obtain ⟨dp, hdp, hle⟩ := hi.ready hw
    exact ⟨dp, hhead.trans hdp, hle⟩

/-- A packet gets to the front only if no packet is ready, so the queue is not waiting. -/
theorem Inv.emplaced_front (hle : s.queue.curTick ≤ when)
    (hl : PacketQueue.emplace s.queue.forceOrder when pkt s.queue.transmitList = none) :
    ∃ q', schedSendEvent
        { s.queue with transmitList := ⟨when, pkt⟩ :: s.queue.transmitList } when = .ok q' ∧
      Enqueue s when { s with queue := q', enqueued := s.enqueued + 1 } := by
  have hlater : ∀ dp ∈ s.queue.transmitList.head?, when < dp.tick := fun dp hdp => by
    have hb := emplace_none hl dp (mem_of_mem_head? hdp)
    simp only [PacketQueue.holdsBack, Bool.or_eq_false_iff, decide_eq_false_iff_not] at hb
    omega
  have hw : s.queue.waitingOnRetry = false := by
    by_contra hw
    obtain ⟨dp, hdp, ht⟩ := hi.ready (by simpa using hw)
    have := hlater dp hdp
    omega
  have hins : ⟨when, pkt⟩ :: s.queue.transmitList =
      SendQueue.inserted s.queue.forceOrder when pkt s.queue.transmitList := by
    rw [SendQueue.inserted, hl]
    rfl
  obtain ⟨honce, hsorted, hmatched, hfin⟩ := hi.inserted hpkt hm hins
  obtain ⟨t, hrun, htle, ht⟩ := schedSendEvent_ok
    (q := { s.queue with transmitList := ⟨when, pkt⟩ :: s.queue.transmitList }) hw hm
  have hbounds : when ≤ t ∧ s.queue.curTick ≤ t := by
    rcases ht with ht | ht
    · obtain ⟨-, -, dp, hdp, hdpt⟩ := hi.event t ht
      have := hlater dp hdp
      omega
    · omega
  refine ⟨_, hrun, ⟨⟨honce, hsorted, hmatched, fun _ dp hdp => ?_⟩, hfin, fun t' ht' => ?_,
    fun hw' => ?_⟩, rfl, rfl, rfl, rfl, ⟨pkt, hpkt, hins⟩, fun t' ht' => ?_⟩
  · cases hdp
    exact ⟨t, rfl, htle⟩
  · cases ht'
    exact ⟨hw, hbounds.2, _, rfl, hbounds.1⟩
  · exact nomatch hw.symm.trans hw'
  · cases ht'
    refine ht.imp_right fun ht => ?_
    simp only at ht
    omega

end

def sanityPanic : Fault := .panic "Packet queue %s has grown beyond 128 packets\n"

theorem Inv.schedSendTiming (hi : Inv s) (hle : s.queue.curTick ≤ when)
    (hx : pkt.expressSnoop = false) (hm : when ≠ maxTick) :
    step s (.schedSendTiming pkt when) = .error sanityPanic ∨
      ∃ s', step s (.schedSendTiming pkt when) = .ok s' ∧ Enqueue s when s' := by
  rw [step, PacketQueue.schedSendTiming, if_neg (by omega), if_neg (by simp [hx])]
  split
  · exact .inl rfl
  · right
    split
    · rename_i l hl
      exact ⟨_, rfl, hi.emplaced rfl hm hl⟩
    · rename_i hl
      obtain ⟨q', hrun, henq⟩ := hi.emplaced_front rfl hm hle hl
      exact ⟨_, bind_eq_ok.2 ⟨_, hrun, rfl⟩, henq⟩

theorem Inv.processSendEvent (hi : Inv s) (hev : s.queue.sendEvent = some s.queue.curTick)
    (sent : Bool) : ∃ s', step s (.processSendEvent sent) = .ok s' ∧ Attempt s sent s' := by
  obtain ⟨hw, -, dp, hdp, ht⟩ := hi.event _ hev
  have hq : { s.queue with sendEvent := none } =
      { s.queue with waitingOnRetry := false, sendEvent := none } := by rw [← hw]
  obtain ⟨r, hrun, ha⟩ := hi.attempt hdp ht hq sent
  refine ⟨_, ?_, ha⟩
  rw [step, PacketQueue.processSendEvent, if_neg (by simp [hw]), hrun]
  rfl

theorem Inv.retry (hi : Inv s) (hw : s.queue.waitingOnRetry = true) (sent : Bool) :
    ∃ s', step s (.retry sent) = .ok s' ∧ Attempt s sent s' := by
  obtain ⟨dp, hdp, ht⟩ := hi.ready hw
  have hev : s.queue.sendEvent = none := by
    cases hev : s.queue.sendEvent with
    | none => rfl
    | some t => exact nomatch (hi.event t hev).1.symm.trans hw
  have hq : { s.queue with waitingOnRetry := false } =
      { s.queue with waitingOnRetry := false, sendEvent := none } := by rw [← hev]
  obtain ⟨r, hrun, ha⟩ := hi.attempt hdp ht hq sent
  refine ⟨_, ?_, ha⟩
  rw [step, PacketQueue.retry, if_neg (by simp [hw]), hrun]
  rfl

theorem Inv.advance {tick : Nat} (hi : Inv s) (hle : s.queue.curTick ≤ tick)
    (hev : ∀ t, s.queue.sendEvent = some t → tick ≤ t) : Inv { s with queue.curTick := tick } := by
  refine ⟨⟨hi.once, hi.sorted, hi.matched, fun hw dp hdp => ?_⟩, hi.finite, fun t ht => ?_,
    fun hw => ?_⟩
  · obtain ⟨t, ht, hmax⟩ := hi.wakes hw dp hdp
    refine ⟨t, ht, ?_⟩
    show t ≤ max dp.tick (tick + 1)
    omega
  · obtain ⟨hw, -, hdp⟩ := hi.event t ht
    exact ⟨hw, hev t ht, hdp⟩
  · obtain ⟨dp, hdp, ht⟩ := hi.ready hw
    exact ⟨dp, hdp, le_trans ht hle⟩

theorem Inv.drain (hi : Inv s) : Inv { s with queue := s.queue.drain } :=
  { hi with }

theorem Inv.init (h : machine.init s) : Inv s := by
  obtain ⟨_, _, _, rfl⟩ := h
  exact ⟨⟨.refl _, fun _ => .nil, fun _ => .nil, by simp⟩,
    by simp, nofun, nofun⟩

/-- Every step keeps the invariant, or stops the simulation because the queue is too long. -/
theorem Inv.step {e : Event} (hi : Inv s) (he : enabled s e) (hg : Finite s e) :
    SendQueue.step s e = .error sanityPanic ∨ ∃ s', SendQueue.step s e = .ok s' ∧ Inv s' := by
  cases e with
  | schedSendTiming pkt when =>
    refine (hi.schedSendTiming he.1 he.2 hg).imp_right ?_
    rintro ⟨s', hs', henq⟩
    exact ⟨s', hs', henq.inv⟩
  | processSendEvent sent =>
    obtain ⟨s', hs', ha⟩ := hi.processSendEvent he sent
    exact .inr ⟨s', hs', ha.inv⟩
  | retry sent =>
    obtain ⟨s', hs', ha⟩ := hi.retry he sent
    exact .inr ⟨s', hs', ha.inv⟩
  | advance tick => exact .inr ⟨_, rfl, hi.advance he.1 he.2⟩
  | drain => exact .inr ⟨_, rfl, hi.drain⟩

theorem reachable_inv {x : Except Fault State} (hr : (machine.under Finite).Reachable x) :
    x = .error sanityPanic ∨ ∃ s, x = .ok s ∧ Inv s :=
  Machine.total_or (fun _ => .init) (fun _ _ => Inv.step) hr

/-! ## A packet for `MaxTick` -/

def read (addr : Nat) : Packet := { req := 0, cmd := .readReq, addr := addr }

def empty : State := { queue := {}, enqueued := 0, sent := [] }

/-- A packet that is enqueued for `MaxTick` stays in the list, and no event is scheduled. -/
theorem forever_unsent :
    ∃ s, machine.lts.Reachable (.ok s) ∧ s.queue.transmitList = [⟨maxTick, read 0⟩] ∧
      s.queue.waitingOnRetry = false ∧ s.queue.sendEvent = none ∧ ¬ Kept s := by
  refine ⟨{ empty with queue := { transmitList := [⟨maxTick, read 0⟩] }, enqueued := 1 },
    .step (Machine.lts_init ⟨false, false, 0, rfl⟩)
      (l := .schedSendTiming (read 0) maxTick) ⟨_, rfl, ⟨Nat.zero_le _, rfl⟩, rfl⟩,
    rfl, rfl, rfl, fun h => ?_⟩
  obtain ⟨t, ht, -⟩ := h.wakes rfl _ rfl
  exact nomatch ht

end Gem5Cxl.L3.SendQueue
