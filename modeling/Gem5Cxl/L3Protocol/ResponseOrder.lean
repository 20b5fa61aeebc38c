import Gem5Cxl.Core.DeferredSend
import Gem5Cxl.L2Machine.SimpleMemory
import Gem5Cxl.L3Protocol.SendQueue

/-!
# The responses of the simple memory: once, in order, not early

Beside the memory the state has the requests accepted, with the tick computed for each, the
responses sent, with the tick at which each was, and whether a sender was refused and has
not been told to retry.

* A request may come at any time, also from within the call in which a response is sent.
* The peer may refuse any response; it retries while one is refused.
* Time does not pass a scheduled event.

**Result.** `responses_delivered`: no assertion fails, and `Delivered` holds in every state.
For each address what was accepted and needs a response is what was sent followed by what is
queued, in the same order; no response was sent before its tick; a queued response has an
event scheduled or a retry coming; and a sender that was refused is told when the memory is
released, for which the event is scheduled.
-/
namespace Gem5Cxl.L3.ResponseOrder

open Core Core.DeferredSend L1 L2 SimpleMemory List
open L3.SendQueue (inserted inserted_split perm_inserted)

/-- A request with the time of its transfer, its delays and its latency. -/
structure Incoming where
  pkt : Packet
  duration : Nat
  receiveDelay : Nat
  latency : Nat
deriving DecidableEq, Repr

/-- A request that was accepted, and the tick for its response. -/
structure Accepted where
  pkt : Packet
  whenToSend : Nat
deriving DecidableEq, Repr

def Accepted.response (a : Accepted) : DeferredPacket :=
  ⟨a.whenToSend, { a.pkt with cmd := a.pkt.cmd.responseCommand, expressSnoop := false }⟩

structure Sent where
  dp : DeferredPacket
  tick : Nat
deriving DecidableEq, Repr

structure Sys where
  mem : SimpleMemory := {}
  accepted : List Accepted := []
  sent : List Sent := []
  /-- A request was refused, and no retry was sent since. -/
  stalled : Bool := false

inductive Ev
  | recvTimingReq (i : Incoming)
  | release
  /-- A dequeue, by a retry or by the event; the requests that come from within the call, and the
  peer's answer. -/
  | dequeue (retry : Bool) (within : List Incoming) (taken : Bool)
  | tick (t : Nat)

namespace Sys

def recvTimingReq (s : Sys) (i : Incoming) : Except Fault Sys := do
  let (ok, mem) ← s.mem.recvTimingReq i.pkt i.duration i.receiveDelay i.latency
  if ok then
    return { s with mem, accepted := s.accepted ++ [⟨i.pkt, s.mem.curTick + i.receiveDelay + i.latency⟩] }
  else return { s with mem, stalled := true }

def release (s : Sys) : Except Fault Sys := do
  let (retry, mem) ← { s.mem with releaseEvent := none }.release
  return { s with mem, stalled := s.stalled && !retry }

/-- The front packet; the event is not scheduled while it fires. -/
def startDequeue (s : Sys) (retry : Bool) : Except Fault (DeferredPacket × Sys) := do
  if retry then
    let dp ← s.mem.recvRespRetry
    return (dp, s)
  else
    let mem := { s.mem with dequeueEvent := none }
    let dp ← mem.startDequeue
    return (dp, { s with mem })

def dequeue (s : Sys) (retry : Bool) (within : List Incoming) (taken : Bool) :
    Except Fault Sys := do
  let (dp, s) ← s.startDequeue retry
  let s ← within.foldlM recvTimingReq s
  return { s with
    mem := s.mem.endDequeue taken
    sent := if taken then s.sent ++ [⟨dp, s.mem.curTick⟩] else s.sent }

end Sys

def step (s : Sys) : Ev → Except Fault Sys
  | .recvTimingReq i => s.recvTimingReq i
  | .release => s.release
  | .dequeue retry within taken => s.dequeue retry within taken
  | .tick t => .ok { s with mem := { s.mem with curTick := t } }

/-- A request that does not make the memory panic. -/
def MayRequest (i : Incoming) : Prop :=
  i.pkt.cacheResponding = false ∧ (i.pkt.cmd.isRead || i.pkt.cmd.isWrite) = true
  deriving Decidable

def enabled (s : Sys) : Ev → Prop
  | .recvTimingReq i => MayRequest i
  | .release => s.mem.releaseEvent = some s.mem.curTick
  | .dequeue retry within _ =>
    (if retry then s.mem.retryResp = true else s.mem.dequeueEvent = some s.mem.curTick) ∧
      ∀ i ∈ within, MayRequest i
  | .tick t => s.mem.curTick ≤ t ∧ (∀ w, s.mem.releaseEvent = some w → t ≤ w) ∧
      ∀ w, s.mem.dequeueEvent = some w → t ≤ w

def machine : Machine Sys Ev Fault where
  init s := s = {}
  enabled := enabled
  step := step

/-- The responses of the accepted requests that need one, in the order of acceptance. -/
def Sys.owed (s : Sys) : List DeferredPacket :=
  (s.accepted.filter (·.pkt.needsResponse)).map Accepted.response

/-- The responses that were sent, and behind them those that are queued. -/
def Sys.responses (s : Sys) : List DeferredPacket := s.sent.map (·.dp) ++ s.mem.packetQueue

/-- Each response once, and those of one address in order. -/
structure Ordered (s : Sys) : Prop where
  once : s.owed.Perm s.responses
  inOrder : ∀ p : Packet, s.owed.filter (·.pkt.matchAddr p) = s.responses.filter (·.pkt.matchAddr p)
  notEarly : ∀ r ∈ s.sent, r.dp.tick ≤ r.tick

structure Told (s : Sys) : Prop where
  stalled : s.stalled = true → s.mem.retryReq = true
  busy : s.mem.retryReq = true → s.mem.isBusy = true
  released : s.mem.isBusy = true ↔ ∃ w, s.mem.releaseEvent = some w
  inTime : ∀ w, s.mem.releaseEvent = some w → s.mem.curTick ≤ w

def Queued (s : Sys) : Prop :=
  Waiting (s.mem.packetQueue.map (·.tick)) s.mem.dequeueEvent s.mem.retryResp s.mem.curTick

/-- What the memory is for. -/
structure Delivered (s : Sys) : Prop extends Ordered s, Told s where
  queued : Queued s

/-- An event that is pending while a retry is owed was scheduled for a packet behind the first. -/
structure Inv (s : Sys) : Prop extends Delivered s where
  crowded : s.mem.retryResp = true → s.mem.dequeueEvent ≠ none → s.mem.packetQueue.tail ≠ []

/-! ## Insertion -/

section
variable {list rest : List DeferredPacket} {dp : DeferredPacket} {when : Nat} {pkt : Packet}

theorem emplace_cons : emplace (dp :: rest) when pkt = dp :: inserted true when pkt rest := rfl

theorem perm_emplace (list : List DeferredPacket) (when : Nat) (pkt : Packet) :
    (emplace list when pkt).Perm (list ++ [⟨when, pkt⟩]) := by
  cases list with
  | nil => exact .refl _
  | cons dp rest =>
    exact ((perm_inserted true when pkt rest).trans (perm_append_singleton _ _).symm).cons dp

theorem inserted_ne_nil : inserted true when pkt rest ≠ [] := by
  obtain ⟨l₁, l₂, -, hins, -⟩ := inserted_split true when pkt rest
  simp [hins]

theorem filter_inserted (p : Packet) :
    (inserted true when pkt rest).filter (·.pkt.matchAddr p) =
      rest.filter (·.pkt.matchAddr p) ++ [(⟨when, pkt⟩ : DeferredPacket)].filter
        (·.pkt.matchAddr p) := by
  obtain ⟨l₁, l₂, rfl, hins, -, hafter⟩ := inserted_split true when pkt rest
  rw [hins]
  by_cases hp : pkt.matchAddr p = true
  · have hnone : l₂.filter (·.pkt.matchAddr p) = [] := by
      rw [filter_eq_nil_iff]
      intro dp hdp hm
      have hb := hafter dp hdp
      simp only [PacketQueue.holdsBack, Packet.matchAddr, Bool.true_and, Bool.or_eq_false_iff,
        Bool.and_eq_false_iff, Bool.and_eq_true, decide_eq_true_eq, decide_eq_false_iff_not] at hb hm hp
      rw [hp.1, hp.2] at hb
      rcases hb.1 with ha | hsec
      · exact ha hm.1
      · exact hsec hm.2
    simp [filter_append, hp, hnone]
  · simp [filter_append, hp]

theorem filter_emplace (list : List DeferredPacket) (when : Nat) (pkt p : Packet) :
    (emplace list when pkt).filter (·.pkt.matchAddr p) =
      list.filter (·.pkt.matchAddr p) ++ [(⟨when, pkt⟩ : DeferredPacket)].filter
        (·.pkt.matchAddr p) := by
  cases list with
  | nil => rfl
  | cons dp rest =>
    rw [emplace_cons, filter_cons, filter_cons, filter_inserted]
    split
    · rfl
    · rfl

theorem emplace_back (list : List DeferredPacket) (when : Nat) (pkt : Packet) :
    ∃ t, (emplace list when pkt).getLast?.map (·.tick) = some t ∧ when ≤ t := by
  cases list with
  | nil => exact ⟨when, rfl, le_rfl⟩
  | cons dp rest =>
    obtain ⟨l₁, l₂, -, hins, -, hafter⟩ := inserted_split true when pkt rest
    rw [emplace_cons, hins]
    cases hlast : l₂.getLast? with
    | none =>
      rw [getLast?_eq_none_iff] at hlast
      subst hlast
      exact ⟨when, by rw [← cons_append, getLast?_concat]; rfl, le_rfl⟩
    | some z =>
      have hb := hafter z (mem_of_getLast? hlast)
      simp only [PacketQueue.holdsBack, Bool.or_eq_false_iff, decide_eq_false_iff_not] at hb
      refine ⟨z.tick, ?_, by omega⟩
      have happ : dp :: (l₁ ++ ⟨when, pkt⟩ :: l₂) = (dp :: l₁ ++ [⟨when, pkt⟩]) ++ l₂ := by simp
      rw [happ, getLast?_append, hlast]
      rfl

end

/-! ## A request -/

theorem command_answered (c : MemCmd) (h : c.needsResponse = true) :
    c.isRequest = true ∧ c.responseCommand.isResponse = true := by
  cases c
  all_goals revert h; decide

variable {a : Accepted}

theorem recvAtomic_eq (h : a.pkt.needsResponse = true) :
    recvAtomic a.pkt = .ok a.response.pkt ∧ a.response.pkt.cmd.isResponse = true := by
  have hreq := command_answered a.pkt.cmd h
  refine ⟨?_, hreq.2⟩
  have hneeds : ¬ a.pkt.cmd.needsResponse = false := by
    rw [show a.pkt.cmd.needsResponse = true from h]
    decide
  simp only [recvAtomic, h, if_true, Packet.makeResponse, hneeds, hreq.1]
  rfl

/-- The dequeue event after a response for tick `when` has joined the queue. -/
inductive Woken (retryResp : Bool) (event : Option Nat) (when : Nat) : Option Nat → Prop
  | pending (h : retryResp = true ∨ event ≠ none) : Woken retryResp event when event
  | scheduled {w : Nat} (hretry : retryResp = false) (hev : event = none) (hw : when ≤ w) :
    Woken retryResp event when (some w)

theorem queueResponse_eq {m : SimpleMemory} {rsp : Packet} {when : Nat}
    (hrsp : rsp.cmd.isResponse = true) (hw : m.curTick ≤ when) :
    ∃ event, Woken m.retryResp m.dequeueEvent when event ∧ m.queueResponse rsp when = .ok { m with
      packetQueue := emplace m.packetQueue when rsp
      dequeueEvent := event } := by
  have hrsp' : ¬ rsp.cmd.isResponse = false := by
    rw [hrsp]
    decide
  obtain ⟨t, hback, hle⟩ := emplace_back m.packetQueue when rsp
  unfold queueResponse
  rw [if_neg hrsp']
  by_cases hidle : m.retryResp = false ∧ m.dequeueEvent = none
  · refine ⟨some t, .scheduled hidle.1 hidle.2 hle, ?_⟩
    have hpast : ¬ t < m.curTick := by omega
    simp only [hidle, and_self, if_true, hback, Option.getD_some, schedule, hpast, if_false]
    rfl
  · refine ⟨m.dequeueEvent, .pending ?_, ?_⟩
    · by_contra hno
      rw [not_or, Bool.not_eq_true, not_not] at hno
      exact hidle hno
    · simp only [hidle, if_false]

theorem occupy_eq {m : SimpleMemory} (hbusy : m.isBusy = false) (hidle : m.releaseEvent = none)
    (duration : Nat) :
    ∃ busy event, m.occupy duration = .ok { m with releaseEvent := event, isBusy := busy } ∧
      (busy = true ↔ ∃ w, event = some w) ∧ ∀ w, event = some w → m.curTick ≤ w := by
  unfold occupy
  by_cases hd : duration ≠ 0
  · refine ⟨true, some (m.curTick + duration), ?_, by simp, ?_⟩
    · have hpast : ¬ m.curTick + duration < m.curTick := by omega
      simp only [if_pos hd, schedule, hpast, if_false, hidle]
      rfl
    · intro w hw
      cases hw
      omega
  · refine ⟨false, none, ?_, by simp, nofun⟩
    rw [if_neg hd, ← hbusy, ← hidle]

inductive Joins (m m' : SimpleMemory) : Prop
  | same (queue : m'.packetQueue = m.packetQueue) (event : m'.dequeueEvent = m.dequeueEvent)
  | joined {when : Nat} {rsp : Packet} (hw : m.curTick ≤ when)
    (queue : m'.packetQueue = SimpleMemory.emplace m.packetQueue when rsp)
    (event : Woken m.retryResp m.dequeueEvent when m'.dequeueEvent)

structure Requested (s s' : Sys) : Prop where
  ordered : Ordered s'
  told : Told s'
  retryResp : s'.mem.retryResp = s.mem.retryResp
  curTick : s'.mem.curTick = s.mem.curTick
  joins : Joins s.mem s'.mem

variable {s : Sys} {dp : DeferredPacket} {retry : Bool} {i : Incoming} {s' : Sys}

theorem Ordered.join (h : Ordered s) (hneeds : a.pkt.needsResponse = true)
    (hacc : s'.accepted = s.accepted ++ [a]) (hsent : s'.sent = s.sent)
    (hqueue : s'.mem.packetQueue = emplace s.mem.packetQueue a.whenToSend a.response.pkt) :
    Ordered s' := by
  have howed : s'.owed = s.owed ++ [a.response] := by simp [Sys.owed, hacc, hneeds]
  constructor
  · rw [howed, Sys.responses, hsent, hqueue]
    refine (h.once.append_right _).trans ?_
    rw [Sys.responses, append_assoc]
    exact (perm_emplace s.mem.packetQueue a.whenToSend a.response.pkt).symm.append_left _
  · intro p
    rw [howed, Sys.responses, hsent, hqueue, filter_append, filter_append, h.inOrder p, filter_emplace,
      Sys.responses, filter_append, append_assoc]
    rfl
  · rw [hsent]
    exact h.notEarly

theorem Ordered.skip (h : Ordered s) (hneeds : ¬ a.pkt.needsResponse = true)
    (hacc : s'.accepted = s.accepted ++ [a]) (hsent : s'.sent = s.sent)
    (hqueue : s'.mem.packetQueue = s.mem.packetQueue) : Ordered s' := by
  have howed : s'.owed = s.owed := by simp [Sys.owed, hacc, hneeds]
  have hresp : s'.responses = s.responses := by rw [Sys.responses, hsent, hqueue, Sys.responses]
  refine ⟨?_, ?_, ?_⟩
  · rw [howed, hresp]
    exact h.once
  · rw [howed, hresp]
    exact h.inOrder
  · rw [hsent]
    exact h.notEarly

theorem recvTimingReq_spec (ho : Ordered s) (ht : Told s) (hmay : MayRequest i) :
    ∃ s', s.recvTimingReq i = .ok s' ∧ Requested s s' := by
  obtain ⟨hcache, hrw⟩ := hmay
  unfold Sys.recvTimingReq SimpleMemory.recvTimingReq
  simp only [hcache, Bool.false_eq_true, if_false, hrw]
  by_cases hretry : s.mem.retryReq = true
  · simp only [hretry, if_true]
    exact ⟨_, rfl, { ho with }, ⟨fun _ => hretry, ht.busy, ht.released, ht.inTime⟩, rfl, rfl,
      .same rfl rfl⟩
  simp only [hretry]
  by_cases hbusy : s.mem.isBusy = true
  · simp only [if_pos hbusy]
    exact ⟨_, rfl, { ho with }, ⟨fun _ => rfl, fun _ => hbusy, ht.released, ht.inTime⟩,
      rfl, rfl, .same rfl rfl⟩
  have hidle : s.mem.releaseEvent = none := by
    rw [ht.released, not_exists] at hbusy
    exact Option.eq_none_iff_forall_ne_some.2 hbusy
  obtain ⟨busy, event, hocc, hrel, htime⟩ := occupy_eq (Bool.not_eq_true _ ▸ hbusy) hidle i.duration
  have hbusy' : s.mem.retryReq = true → busy = true := fun hr => absurd hr hretry
  simp only [hbusy, hocc, ok_bind]
  by_cases hneeds : i.pkt.needsResponse = true
  · obtain ⟨hatomic, hisrsp⟩ := recvAtomic_eq (a := ⟨i.pkt, s.mem.curTick + i.receiveDelay + i.latency⟩) hneeds
    have hw : s.mem.curTick ≤ s.mem.curTick + i.receiveDelay + i.latency := by omega
    obtain ⟨devent, hwoken, hqueue⟩ := queueResponse_eq
      (m := { s.mem with releaseEvent := event, isBusy := busy }) hisrsp hw
    simp only [hatomic, ok_bind, hneeds, if_true, hqueue]
    exact ⟨_, rfl, ho.join hneeds rfl rfl rfl, ⟨ht.stalled, hbusy', hrel, htime⟩, rfl, rfl, .joined hw rfl hwoken⟩
  · have hatomic : recvAtomic i.pkt = .ok i.pkt := if_neg hneeds
    simp only [hatomic, ok_bind, hneeds]
    exact ⟨_, rfl, ho.skip hneeds rfl rfl rfl, ⟨ht.stalled, hbusy', hrel, htime⟩, rfl, rfl, .same rfl rfl⟩

/-! ## The steps -/

theorem Inv.recvTimingReq (h : Inv s) (hmay : MayRequest i) :
    ∃ s', s.recvTimingReq i = .ok s' ∧ Inv s' := by
  obtain ⟨s', hrun, hreq⟩ := recvTimingReq_spec h.toOrdered h.toTold hmay
  refine ⟨s', hrun, ⟨hreq.ordered, hreq.told, ?_⟩, ?_⟩
  · unfold Queued
    rw [hreq.retryResp, hreq.curTick]
    cases hreq.joins with
    | same queue event =>
      rw [queue, event]
      exact h.queued
    | @joined when rsp hw queue event =>
      have hq := h.queued
      unfold Queued at hq
      rw [queue]
      generalize s'.mem.dequeueEvent = event' at event
      cases hl : s.mem.packetQueue with
      | nil =>
        rw [hl] at hq
        obtain ⟨hev, hretry⟩ := hq.event_nil
        cases event with
        | pending hp =>
          rw [hev, hretry] at hp
          simp at hp
        | scheduled _ _ hle =>
          rw [hretry]
          exact waiting_event (le_trans hw hle) hle
      | cons dp rest =>
        rw [hl] at hq
        cases event with
        | pending _ => exact hq.behind
        | scheduled hretry hev _ =>
          have hwaits := hq.waits (by simp)
          rw [hev, hretry] at hwaits
          simp at hwaits
  · intro hretry hev
    rw [hreq.retryResp] at hretry
    cases hreq.joins with
    | same queue event =>
      rw [queue]
      rw [event] at hev
      exact h.crowded hretry hev
    | @joined when rsp hw queue event =>
      obtain ⟨t, ts, hticks, -⟩ := h.queued.refused_due hretry
      obtain ⟨dp, rest, hl, -⟩ := map_eq_cons_iff.1 hticks
      rw [queue, hl]
      exact inserted_ne_nil

theorem Inv.release (h : Inv s) (hen : enabled s .release) : ∃ s', s.release = .ok s' ∧ Inv s' := by
  have hbusy : s.mem.isBusy = true := h.released.2 ⟨_, hen⟩
  have hidle : ¬ s.mem.isBusy = false := by
    rw [hbusy]
    decide
  unfold Sys.release
  simp only [hidle]
  refine ⟨_, rfl, ⟨{ h with }, ⟨?_, nofun, ?_, nofun⟩,
    h.queued⟩, h.crowded⟩
  · intro hst
    simp only [Bool.and_eq_true, Bool.not_eq_true'] at hst
    have hretry := h.stalled hst.1
    rw [hst.2] at hretry
    exact (nomatch hretry)
  · simp

theorem Inv.tick {t : Nat} (h : Inv s) (hen : enabled s (.tick t)) :
    Inv { s with mem.curTick := t } := by
  obtain ⟨hle, hrel, hdeq⟩ := hen
  exact ⟨⟨{ h with }, ⟨h.stalled, h.busy, h.released, hrel⟩,
    .tick h.queued hle hdeq⟩, h.crowded⟩

/-- While the peer is called: the packet `dp` is being sent. -/
structure Sending (dp : DeferredPacket) (s : Sys) : Prop extends Ordered s, Told s where
  front : s.mem.packetQueue.head? = some dp
  due : dp.tick ≤ s.mem.curTick
  event : ∀ w, s.mem.dequeueEvent = some w → s.mem.curTick ≤ w ∧ s.mem.packetQueue.tail ≠ []

theorem Sending.recvTimingReq (h : Sending dp s)
    (hmay : MayRequest i) : ∃ s', s.recvTimingReq i = .ok s' ∧ Sending dp s' := by
  obtain ⟨s', hrun, hreq⟩ := recvTimingReq_spec h.toOrdered h.toTold hmay
  obtain ⟨rest, hl⟩ := head?_eq_some_iff.1 h.front
  refine ⟨s', hrun, hreq.ordered, hreq.told, ?_, ?_, ?_⟩
  · cases hreq.joins with
    | same queue event => rw [queue, h.front]
    | joined hw queue event => rw [queue, hl, emplace_cons, head?_cons]
  · rw [hreq.curTick]
    exact h.due
  · intro w hev
    rw [hreq.curTick]
    cases hreq.joins with
    | same queue event =>
      rw [queue]
      exact h.event w (event ▸ hev)
    | joined hw queue event =>
      rw [queue, hl]
      refine ⟨?_, inserted_ne_nil⟩
      rw [hev] at event
      generalize hw' : some w = o at event
      cases event with
      | pending _ => exact (h.event w hw'.symm).1
      | scheduled _ _ hle =>
        cases hw'
        exact le_trans hw hle

theorem Sending.within (h : Sending dp s) (within : List Incoming)
    (hmay : ∀ i ∈ within, MayRequest i) :
    ∃ s', within.foldlM Sys.recvTimingReq s = .ok s' ∧ Sending dp s' := by
  induction within generalizing s with
  | nil => exact ⟨s, rfl, h⟩
  | cons i within ih =>
    obtain ⟨s₁, hrun, h₁⟩ := h.recvTimingReq (hmay i mem_cons_self)
    obtain ⟨s₂, hrun₂, h₂⟩ := ih h₁ (fun j hj => hmay j (mem_cons_of_mem _ hj))
    exact ⟨s₂, by simp only [foldlM_cons, hrun, ok_bind, hrun₂], h₂⟩

/-- The front packet is due when its event fires or the retry comes. -/
theorem Inv.startDequeue (h : Inv s)
    (hfire : if retry then s.mem.retryResp = true else s.mem.dequeueEvent = some s.mem.curTick) :
    ∃ dp s', s.startDequeue retry = .ok (dp, s') ∧ Sending dp s' := by
  have hev : s.mem.dequeueEvent = some s.mem.curTick ∨ s.mem.retryResp = true := by
    cases retry with
    | true => exact .inr hfire
    | false => exact .inl hfire
  obtain ⟨t, ts, hticks, hle⟩ := h.queued.due hev
  obtain ⟨dp, rest, hl, rfl, -⟩ := map_eq_cons_iff.1 hticks
  have hfront : s.mem.packetQueue.head? = some dp := by rw [hl, head?_cons]
  cases retry with
  | true =>
    have hretry : ¬ s.mem.retryResp = false := by
      rw [hfire]
      decide
    refine ⟨dp, s, ?_, h.toOrdered, h.toTold, hfront, hle, ?_⟩
    · simp only [Sys.startDequeue, if_true, recvRespRetry, hretry,
        SimpleMemory.startDequeue, hl]
      rfl
    · intro w hw
      exact ⟨(h.queued.event_due w hw).1, h.crowded hfire (by rw [hw]; simp)⟩
  | false =>
    refine ⟨dp, { s with mem.dequeueEvent := none }, ?_,
      { h with }, { h with }, hfront, hle,
      nofun⟩
    simp only [Sys.startDequeue, Bool.false_eq_true, if_false, SimpleMemory.startDequeue, hl]
    rfl

theorem Sending.taken (h : Sending dp s) :
    Inv { s with mem := s.mem.endDequeue true, sent := s.sent ++ [⟨dp, s.mem.curTick⟩] } := by
  obtain ⟨rest, hl⟩ := head?_eq_some_iff.1 h.front
  have hresp : ∀ m : SimpleMemory, m.packetQueue = rest →
      Sys.responses { s with mem := m, sent := s.sent ++ [⟨dp, s.mem.curTick⟩] } = s.responses := by
    intro m hm
    simp [Sys.responses, hm, hl]
  have hord : ∀ m : SimpleMemory, m.packetQueue = rest →
      Ordered { s with mem := m, sent := s.sent ++ [⟨dp, s.mem.curTick⟩] } := by
    intro m hm
    refine ⟨?_, ?_, ?_⟩
    · rw [hresp m hm]
      exact h.once
    · rw [hresp m hm]
      exact h.inOrder
    · intro r hr
      rcases mem_append.1 hr with hr | hr
      · exact h.notEarly r hr
      · rw [mem_singleton.1 hr]
        exact h.due
  cases rest with
  | nil =>
    -- a pending event would be for a packet behind this one
    have hnone : s.mem.dequeueEvent = none := by
      refine Option.eq_none_iff_forall_ne_some.2 ?_
      intro w hw
      exact (h.event w hw).2 (by rw [hl, tail_cons])
    have hend : s.mem.endDequeue true = { s.mem with packetQueue := [], retryResp := false } := by
      simp [endDequeue, hl]
    rw [hend]
    refine ⟨⟨hord _ rfl, { h with }, ?_⟩, nofun⟩
    simp only [hnone]
    exact waiting_nil _
  | cons dp' rest =>
    have hend : s.mem.endDequeue true = { s.mem with
        packetQueue := dp' :: rest
        retryResp := false
        dequeueEvent := some (max dp'.tick s.mem.curTick) } := by
      simp [endDequeue, hl]
    rw [hend]
    exact ⟨⟨hord _ rfl, { h with },
      waiting_event (le_max_right _ _) (le_max_left _ _)⟩, nofun⟩

theorem Sending.refused (h : Sending dp s) : Inv { s with mem := s.mem.endDequeue false } := by
  obtain ⟨rest, hl⟩ := head?_eq_some_iff.1 h.front
  have hend : s.mem.endDequeue false = { s.mem with retryResp := true } := rfl
  rw [hend]
  refine ⟨⟨{ h with }, { h with }, ?_⟩, ?_⟩
  · simp only [hl]
    exact waiting_refused h.due (fun w hw => (h.event w hw).1)
  · intro _ hev
    obtain ⟨w, hw⟩ := Option.ne_none_iff_exists'.1 hev
    exact (h.event w hw).2

theorem Inv.dequeue {taken : Bool} {within : List Incoming} (h : Inv s)
    (hen : enabled s (.dequeue retry within taken)) :
    ∃ s', s.dequeue retry within taken = .ok s' ∧ Inv s' := by
  obtain ⟨hfire, hmay⟩ := hen
  obtain ⟨dp, s₀, hstart, h₀⟩ := h.startDequeue hfire
  obtain ⟨s₁, hrun, h₁⟩ := h₀.within within hmay
  unfold Sys.dequeue
  simp only [hstart, ok_bind, hrun]
  cases taken with
  | true => exact ⟨_, rfl, h₁.taken⟩
  | false => exact ⟨_, rfl, h₁.refused⟩

theorem Inv.step {e : Ev} (h : Inv s) (hen : enabled s e) : ∃ s', step s e = .ok s' ∧ Inv s' := by
  cases e with
  | recvTimingReq i => exact h.recvTimingReq hen
  | release => exact h.release hen
  | dequeue retry within taken => exact h.dequeue hen
  | tick t => exact ⟨_, rfl, h.tick hen⟩

theorem Inv.init : Inv {} where
  once := .refl _
  inOrder _ := rfl
  notEarly _ hr := (nomatch hr)
  stalled hf := (nomatch hf)
  busy hf := (nomatch hf)
  released := by simp
  inTime _ hw := (nomatch hw)
  queued := waiting_nil 0
  crowded hf := (nomatch hf)

/-- **Delivery.** In every run no assertion fails, and in every state reached each response that
is owed was sent or is queued, once, in order for each address; none was sent early; and neither a
queued response nor a refused sender is forgotten. -/
theorem responses_delivered {x : Except Fault Sys} (hr : machine.lts.Reachable x) :
    ∃ s, x = .ok s ∧ Delivered s := by
  obtain ⟨s, rfl, h⟩ := Machine.total (fun s hs => hs ▸ Inv.init)
    (fun s e h hen _ => h.step hen) (Machine.unguarded hr)
  exact ⟨s, rfl, h.toDelivered⟩

instance (s : Sys) (e : Ev) : Decidable (enabled s e) := by
  cases e <;> dsimp only [enabled] <;> infer_instance

/-- A read of `addr` with the given transfer time and latency. -/
def read (n addr duration latency : Nat) : Incoming :=
  ⟨{ id := n, req := 0, cmd := .readReq, addr }, duration, 0, latency⟩

/-- The second read comes while the memory is busy, and again after the release. The third
comes from within the call in which the first response is refused, the fourth from within
the one in which the second is taken; the fourth is due before the third and goes before it.
-/
theorem responses_delivered_four : ∃ s, machine.lts.Reachable (.ok s) ∧
    s.sent.map (·.dp.pkt.id) = [1, 2] ∧ s.mem.packetQueue.map (·.pkt.id) = [4, 3] ∧
      Delivered s := by
  have hr := Machine.lts_decided (P := enabled) (fun _ _ => id)
    [.recvTimingReq (read 1 0 2 5), .recvTimingReq (read 2 64 0 4), .tick 2, .release,
      .recvTimingReq (read 2 64 0 4), .tick 5, .dequeue false [read 3 0 0 9] false, .dequeue true [] true,
      .tick 6, .dequeue false [read 4 64 0 2] true]
    (show machine.init {} from rfl) rfl
  obtain ⟨s, hs, hd⟩ := responses_delivered hr
  cases hs
  exact ⟨_, hr, rfl, rfl, hd⟩

end Gem5Cxl.L3.ResponseOrder
