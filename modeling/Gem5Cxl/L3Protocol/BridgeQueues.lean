import Gem5Cxl.Core.DeferredSend
import Gem5Cxl.L2Machine.Bridge

/-!
# The plain bridge loses nothing and strands nobody

The peers may refuse any send and retry later, send requests from within a call in which
they are given a response, and answer a request from within the call in which they are
given it. Beside the bridge the state has what was accepted and forwarded, what responses
arrived and were returned, and which peer owes a retry.

* A request may come at any time; a response comes for a request that was forwarded, needs
  one and has none yet.
* A send happens when its event fires, or when the peer that refused the last one retries.
* Time does not pass a scheduled event.

**Result.** `queues_conserved`: no assertion fails, and `Conserved` holds in every state:
what was accepted is what was forwarded followed by the request queue, the same for the
responses; `outstandingResponses` is what was accepted and needs a response less what was
returned; both limits hold; a stalled sender has something to wait for; and neither queue
is forgotten (`Served`).
-/
namespace Gem5Cxl.L3.BridgeQueues

open Core Core.DeferredSend L1 L2 L2.PlainBridge Bridge List

/-- A packet with the bridge's clock edge and the packet's delays. -/
structure Incoming where
  pkt : Packet
  edge : Nat
  receiveDelay : Nat
deriving DecidableEq, Repr

structure Sys where
  bridge : Bridge
  accepted : List Packet := []
  forwarded : List Packet := []
  arrived : List Packet := []
  returned : List Packet := []
  reqRefused : Bool := false
  respRefused : Bool := false

inductive Ev
  | recvTimingReq (i : Incoming)
  | recvTimingResp (i : Incoming)
  /-- A send of the request port, by a retry or by the event; the responses that come from within
  the call, and the peer's answer. -/
  | sendReq (retry : Bool) (within : List Incoming) (taken : Bool) (edge : Nat)
  /-- A send of the response port; the requests that come from within the call, and the answer. -/
  | sendResp (retry : Bool) (within : List Incoming) (taken : Bool) (edge : Nat)
  | tick (t : Nat)

namespace Sys

def recvTimingReq (s : Sys) (i : Incoming) : Except Fault Sys := do
  let (ok, b) ← s.bridge.recvTimingReq i.pkt i.edge i.receiveDelay
  return { s with bridge := b, accepted := if ok then s.accepted ++ [i.pkt] else s.accepted }

def recvTimingResp (s : Sys) (i : Incoming) : Except Fault Sys := do
  let b ← s.bridge.recvTimingResp i.pkt i.edge i.receiveDelay
  return { s with bridge := b, arrived := s.arrived ++ [i.pkt] }

/-- The event of the request port is not scheduled while it fires. -/
def fireReq (s : Sys) (retry : Bool) : Sys :=
  if retry then { s with reqRefused := false }
  else { s with bridge := { s.bridge with memSidePort := { s.bridge.memSidePort with sendEvent := none } } }

def fireResp (s : Sys) (retry : Bool) : Sys :=
  if retry then { s with respRefused := false }
  else { s with bridge := { s.bridge with cpuSidePort := { s.bridge.cpuSidePort with sendEvent := none } } }

def sendReq (s : Sys) (retry : Bool) (within : List Incoming) (taken : Bool) (edge : Nat) :
    Except Fault Sys := do
  let s := s.fireReq retry
  let pkt ← s.bridge.startSendReq
  let s ← within.foldlM recvTimingResp s
  let b ← s.bridge.endSendReq taken edge
  return { s with
    bridge := b
    forwarded := if taken then s.forwarded ++ [pkt] else s.forwarded
    reqRefused := !taken }

def sendResp (s : Sys) (retry : Bool) (within : List Incoming) (taken : Bool) (edge : Nat) :
    Except Fault Sys := do
  let s := s.fireResp retry
  let pkt ← s.bridge.startSendResp
  let s ← within.foldlM recvTimingReq s
  let b ← s.bridge.endSendResp taken edge
  return { s with
    bridge := b
    returned := if taken then s.returned ++ [pkt] else s.returned
    respRefused := !taken }

end Sys

def step (s : Sys) : Ev → Except Fault Sys
  | .recvTimingReq i => s.recvTimingReq i
  | .recvTimingResp i => s.recvTimingResp i
  | .sendReq retry within taken edge => s.sendReq retry within taken edge
  | .sendResp retry within taken edge => s.sendResp retry within taken edge
  | .tick t => .ok { s with bridge := { s.bridge with curTick := t } }

/-- The requests forwarded, the one that is being taken included, that need a response. -/
def Sys.expected (s : Sys) (taken : Bool) : Nat :=
  s.forwarded.countP (·.needsResponse) +
    if taken then (s.bridge.memSidePort.transmitList.head?.toList.map (·.pkt)).countP (·.needsResponse) else 0

/-- A request the CPU side may send. -/
def Sys.MayRequest (s : Sys) (i : Incoming) : Prop :=
  s.bridge.curTick ≤ i.edge ∧ i.pkt.cacheResponding = false

def enabled (s : Sys) : Ev → Prop
  | .recvTimingReq i => s.MayRequest i
  | .recvTimingResp i => s.bridge.curTick ≤ i.edge ∧ s.arrived.length < s.expected false
  | .sendReq retry within taken edge =>
    (if retry then s.reqRefused = true else s.bridge.memSidePort.sendEvent = some s.bridge.curTick) ∧
      s.bridge.curTick ≤ edge ∧ (∀ i ∈ within, s.bridge.curTick ≤ i.edge) ∧
      s.arrived.length + within.length ≤ s.expected taken
  | .sendResp retry within _ edge =>
    (if retry then s.respRefused = true else s.bridge.cpuSidePort.sendEvent = some s.bridge.curTick) ∧
      s.bridge.curTick ≤ edge ∧ ∀ i ∈ within, s.MayRequest i
  | .tick t => s.bridge.curTick ≤ t ∧ (∀ w, s.bridge.memSidePort.sendEvent = some w → t ≤ w) ∧
      ∀ w, s.bridge.cpuSidePort.sendEvent = some w → t ≤ w

/-- A new bridge with limits of at least 1. -/
def machine : Machine Sys Ev Fault where
  init s := ∃ reqQueueLimit respQueueLimit, 1 ≤ reqQueueLimit ∧ 1 ≤ respQueueLimit ∧
    s = { bridge := { reqQueueLimit, respQueueLimit } }
  enabled := enabled
  step := step

/-- Nothing is lost or sent twice, and the limits hold; also while a peer is being called. -/
structure Counts (s : Sys) : Prop where
  requests : s.accepted = s.forwarded ++ s.bridge.memSidePort.transmitList.map (·.pkt)
  responses : s.arrived = s.returned ++ s.bridge.cpuSidePort.transmitList.map (·.pkt)
  outstanding : s.bridge.cpuSidePort.outstandingResponses + s.returned.length =
    s.accepted.countP (·.needsResponse)
  respLimit : s.bridge.cpuSidePort.outstandingResponses ≤ s.bridge.respQueueLimit
  reqLimit : s.bridge.memSidePort.transmitList.length ≤ s.bridge.reqQueueLimit
  stalled : s.bridge.cpuSidePort.retryReq = true →
    s.bridge.memSidePort.transmitList ≠ [] ∨ 0 < s.bridge.cpuSidePort.outstandingResponses

def ReqServed (s : Sys) : Prop :=
  Served (s.bridge.memSidePort.transmitList.map (·.tick)) s.bridge.memSidePort.sendEvent s.reqRefused
    s.bridge.curTick

def RespServed (s : Sys) : Prop :=
  Served (s.bridge.cpuSidePort.transmitList.map (·.tick)) s.bridge.cpuSidePort.sendEvent s.respRefused
    s.bridge.curTick

/-- What the bridge is for. -/
structure Conserved (s : Sys) : Prop extends Counts s where
  reqServed : ReqServed s
  respServed : RespServed s

structure Inv (s : Sys) : Prop extends Conserved s where
  limits : 1 ≤ s.bridge.reqQueueLimit ∧ 1 ≤ s.bridge.respQueueLimit
  answered : s.arrived.length ≤ s.forwarded.countP (·.needsResponse)

variable {edge : Nat}

/-! ## The queues -/

section
variable {list : List DeferredPacket} {event : Option Nat} {refused : Bool} {now : Nat}

/-- A packet that is first in an empty queue is scheduled, one that is not waits behind. -/
theorem scheduleFirst_eq (h : Served (list.map (·.tick)) event refused now) (dp : DeferredPacket)
    (hw : now ≤ dp.tick) :
    ∃ event', scheduleFirst list event dp.tick now = .ok event' ∧
      Served ((list ++ [dp]).map (·.tick)) event' refused now := by
  cases list with
  | nil =>
    obtain ⟨hev, hr⟩ := h.event_nil
    refine ⟨some dp.tick, ?_, hr ▸ served_event hw le_rfl⟩
    simp only [scheduleFirst, schedule, if_true, hev]
    rw [if_neg (not_lt.2 hw)]
    rfl
  | cons dp' rest => exact ⟨event, rfl, h.behind⟩

theorem frontToSend_eq (h : Served (list.map (·.tick)) event refused now)
    (hfire : event = some now ∨ refused = true) :
    ∃ dp rest, list = dp :: rest ∧ dp.tick ≤ now ∧ frontToSend list now = .ok dp.pkt := by
  obtain ⟨t, ts, heq, ht⟩ := h.due hfire
  obtain ⟨dp, rest, rfl, rfl, -⟩ := map_eq_cons_iff.1 heq
  exact ⟨dp, rest, rfl, ht, if_neg (not_lt.2 ht)⟩

theorem scheduleNext_eq (rest : List DeferredPacket) (hedge : now ≤ edge) :
    ∃ event', scheduleNext rest none edge now = .ok event' ∧
      Served (rest.map (·.tick)) event' false now := by
  cases rest with
  | nil => exact ⟨none, rfl, served_nil now⟩
  | cons dp rest =>
    have hle : now ≤ max dp.tick edge := le_trans hedge (le_max_right _ _)
    refine ⟨some (max dp.tick edge), ?_, served_event hle (le_max_left _ _)⟩
    simp only [scheduleNext, schedule]
    rw [if_neg (not_lt.2 hle)]
    rfl

end

/-! ## Calls of the peers -/

/-- What a call of the CPU side leaves alone. -/
structure SameResp (s s' : Sys) : Prop where
  list : s'.bridge.cpuSidePort.transmitList = s.bridge.cpuSidePort.transmitList
  event : s'.bridge.cpuSidePort.sendEvent = s.bridge.cpuSidePort.sendEvent
  tick : s'.bridge.curTick = s.bridge.curTick
  limits : s'.bridge.reqQueueLimit = s.bridge.reqQueueLimit ∧ s'.bridge.respQueueLimit = s.bridge.respQueueLimit
  forwarded : s'.forwarded = s.forwarded
  arrived : s'.arrived = s.arrived
  returned : s'.returned = s.returned
  refused : s'.respRefused = s.respRefused

theorem SameResp.refl (s : Sys) : SameResp s s := ⟨rfl, rfl, rfl, ⟨rfl, rfl⟩, rfl, rfl, rfl, rfl⟩

theorem SameResp.eq {s s' : Sys} (h : SameResp s s') :
    ∃ port out retry accepted refused, s' = { s with
    bridge.memSidePort := port
    bridge.cpuSidePort.outstandingResponses := out
    bridge.cpuSidePort.retryReq := retry
    accepted := accepted
    reqRefused := refused } := by
  obtain ⟨⟨_, _, _, ⟨_, _, _, _⟩, _⟩, _, _, _, _, _, _⟩ := s'
  obtain ⟨rfl, rfl, rfl, ⟨rfl, rfl⟩, rfl, rfl, rfl, rfl⟩ := h
  exact ⟨_, _, _, _, _, rfl⟩

variable {s : Sys} {i : Incoming} {retry : Bool} {taken : Bool} {rest : List DeferredPacket}
  {within : List Incoming}

/-- A refused request is told to retry, and there is something to wait for. -/
theorem Counts.stall (hc : Counts s)
    (hwait : s.bridge.memSidePort.transmitList ≠ [] ∨
      0 < s.bridge.cpuSidePort.outstandingResponses) :
    Counts { s with bridge := s.bridge.setRetryReq true } :=
  { hc with stalled := fun _ => hwait }

/-- A request is put in the queue, when `out` responses are reserved with its own. -/
theorem schedTimingReq_spec {out : Nat} (hc : Counts s) (hs : ReqServed s)
    (hw : s.bridge.curTick ≤ i.edge + i.receiveDelay)
    (hroom : s.bridge.memSidePort.transmitList.length < s.bridge.reqQueueLimit)
    (hout : out + s.returned.length = (s.accepted ++ [i.pkt]).countP (·.needsResponse))
    (hle : out ≤ s.bridge.respQueueLimit) :
    ∃ b s', { s.bridge with cpuSidePort.outstandingResponses := out }.schedTimingReq i.pkt
      (i.edge + i.receiveDelay) = .ok b ∧
      s' = { s with bridge := b, accepted := s.accepted ++ [i.pkt] } ∧ Counts s' ∧ ReqServed s' ∧ SameResp s s' := by
  obtain ⟨event', hrun, hs'⟩ := scheduleFirst_eq hs ⟨i.edge + i.receiveDelay, i.pkt⟩ hw
  simp only [schedTimingReq, hrun, ok_bind]
  rw [if_neg (ne_of_lt hroom)]
  refine ⟨_, _, rfl, rfl, ⟨?_, hc.responses, hout, hle, ?_, fun _ => .inl (by simp)⟩, hs', { SameResp.refl s with }⟩
  · simp [hc.requests]
  · simpa using Nat.succ_le_of_lt hroom

theorem recvTimingReq_spec (hc : Counts s) (hs : ReqServed s)
    (hl : 1 ≤ s.bridge.reqQueueLimit ∧ 1 ≤ s.bridge.respQueueLimit) (hmay : s.MayRequest i) :
    ∃ s', s.recvTimingReq i = .ok s' ∧ Counts s' ∧ ReqServed s' ∧ SameResp s s' := by
  obtain ⟨hedge, hcache⟩ := hmay
  have hwhen : s.bridge.curTick ≤ i.edge + i.receiveDelay := Nat.le_add_right_of_le hedge
  unfold Sys.recvTimingReq Bridge.recvTimingReq
  simp only [hcache, Bool.false_eq_true, if_false]
  by_cases hretry : s.bridge.cpuSidePort.retryReq = true
  · simp only [hretry, if_true]
    exact ⟨s, rfl, hc, hs, .refl s⟩
  simp only [hretry]
  by_cases hfull : s.bridge.reqQueueFull = true
  · simp only [hfull, if_true]
    have hlen := of_decide_eq_true hfull
    exact ⟨_, rfl, hc.stall (.inl (ne_nil_of_length_pos (by omega))), hs, { SameResp.refl s with }⟩
  simp only [hfull]
  have hlt := lt_of_le_of_ne hc.reqLimit (mt decide_eq_true hfull)
  have hout := hc.outstanding
  by_cases hneeds : i.pkt.needsResponse = true
  · simp only [hneeds, if_true]
    by_cases hresp : s.bridge.respQueueFull = true
    · simp only [hresp, if_true]
      have hall := of_decide_eq_true hresp
      exact ⟨_, rfl, hc.stall (.inr (by omega)), hs, { SameResp.refl s with }⟩
    · simp only [hresp]
      have hne := mt decide_eq_true hresp
      obtain ⟨b, s', hrun, rfl, hspec⟩ := schedTimingReq_spec hc hs hwhen hlt
        (by rw [countP_append, ← hout]; simp [hneeds]; omega) (Nat.succ_le_of_lt (lt_of_le_of_ne hc.respLimit hne))
      simp only [reserve, hne, if_false, ok_bind, hrun]
      exact ⟨_, rfl, hspec⟩
  · simp only [hneeds]
    obtain ⟨b, s', hrun, rfl, hspec⟩ := schedTimingReq_spec hc hs hwhen hlt
      (by rw [countP_append, ← hout]; simp [hneeds]) hc.respLimit
    simp only [hrun, ok_bind]
    exact ⟨_, rfl, hspec⟩

theorem requests_within (within : List Incoming) (hc : Counts s) (hs : ReqServed s)
    (hl : 1 ≤ s.bridge.reqQueueLimit ∧ 1 ≤ s.bridge.respQueueLimit)
    (hmay : ∀ i ∈ within, s.MayRequest i) :
    ∃ s', within.foldlM Sys.recvTimingReq s = .ok s' ∧ Counts s' ∧ ReqServed s' ∧
      SameResp s s' := by
  induction within generalizing s with
  | nil => exact ⟨s, rfl, hc, hs, .refl s⟩
  | cons i within ih =>
    obtain ⟨s₁, hrun, hc₁, hs₁, hsame₁⟩ := recvTimingReq_spec hc hs hl (hmay i mem_cons_self)
    obtain ⟨_, _, _, _, _, rfl⟩ := hsame₁.eq
    obtain ⟨s₂, hrun₂, hc₂, hs₂, hsame₂⟩ := ih hc₁ hs₁ hl fun j hj => hmay j (mem_cons_of_mem _ hj)
    exact ⟨s₂, by simp only [foldlM_cons, hrun, ok_bind, hrun₂], hc₂, hs₂, { hsame₂ with }⟩

/-- What a call of the memory side leaves alone. -/
structure SameReq (s s' : Sys) : Prop where
  port : s'.bridge.memSidePort = s.bridge.memSidePort
  outstanding : s'.bridge.cpuSidePort.outstandingResponses = s.bridge.cpuSidePort.outstandingResponses
  retryReq : s'.bridge.cpuSidePort.retryReq = s.bridge.cpuSidePort.retryReq
  tick : s'.bridge.curTick = s.bridge.curTick
  limits : s'.bridge.reqQueueLimit = s.bridge.reqQueueLimit ∧ s'.bridge.respQueueLimit = s.bridge.respQueueLimit
  accepted : s'.accepted = s.accepted
  forwarded : s'.forwarded = s.forwarded
  returned : s'.returned = s.returned
  refused : s'.reqRefused = s.reqRefused

theorem SameReq.refl (s : Sys) : SameReq s s := ⟨rfl, rfl, rfl, rfl, ⟨rfl, rfl⟩, rfl, rfl, rfl, rfl⟩

theorem SameReq.eq {s' : Sys} (h : SameReq s s') : ∃ list event arrived refused, s' = { s with
    bridge.cpuSidePort.transmitList := list
    bridge.cpuSidePort.sendEvent := event
    arrived := arrived
    respRefused := refused } := by
  obtain ⟨⟨_, _, _, ⟨_, _, _, _⟩, _⟩, _, _, _, _, _, _⟩ := s'
  obtain ⟨rfl, rfl, rfl, rfl, ⟨rfl, rfl⟩, rfl, rfl, rfl, rfl⟩ := h
  exact ⟨_, _, _, _, rfl⟩

theorem recvTimingResp_spec (hc : Counts s) (hs : RespServed s)
    (hedge : s.bridge.curTick ≤ i.edge) :
    ∃ s', s.recvTimingResp i = .ok s' ∧ Counts s' ∧ RespServed s' ∧ SameReq s s' ∧
      s'.arrived = s.arrived ++ [i.pkt] := by
  obtain ⟨event', hrun, hs'⟩ := scheduleFirst_eq hs ⟨i.edge + i.receiveDelay, i.pkt⟩
    (Nat.le_add_right_of_le hedge)
  unfold Sys.recvTimingResp Bridge.recvTimingResp schedTimingResp
  simp only [hrun, ok_bind]
  refine ⟨_, rfl, ?_, hs', { SameReq.refl s with }, rfl⟩
  refine { hc with responses := ?_ }
  simp [hc.responses]

theorem responses_within (within : List Incoming) (hc : Counts s) (hs : RespServed s)
    (hedge : ∀ i ∈ within, s.bridge.curTick ≤ i.edge) :
    ∃ s', within.foldlM Sys.recvTimingResp s = .ok s' ∧ Counts s' ∧ RespServed s' ∧ SameReq s s' ∧
      s'.arrived.length = s.arrived.length + within.length := by
  induction within generalizing s with
  | nil => exact ⟨s, rfl, hc, hs, .refl s, rfl⟩
  | cons i within ih =>
    obtain ⟨s₁, hrun, hc₁, hs₁, hsame₁, harr₁⟩ := recvTimingResp_spec hc hs (hedge i mem_cons_self)
    obtain ⟨_, _, _, _, rfl⟩ := hsame₁.eq
    obtain ⟨s₂, hrun₂, hc₂, hs₂, hsame₂, harr₂⟩ := ih hc₁ hs₁ fun j hj => hedge j (mem_cons_of_mem _ hj)
    refine ⟨s₂, by simp only [foldlM_cons, hrun, ok_bind, hrun₂], hc₂, hs₂, { hsame₂ with }, ?_⟩
    rw [harr₂, harr₁, length_append, length_singleton, length_cons]
    omega

/-! ## Sends -/

/-- Whether the event has fired or the retry has come, the request port has no event now. -/
theorem fireReq_eq (hs : ReqServed s)
    (hfire : if retry then s.reqRefused = true
      else s.bridge.memSidePort.sendEvent = some s.bridge.curTick) :
    ∃ refused, s.fireReq retry = { s with
      bridge.memSidePort := ⟨s.bridge.memSidePort.transmitList, none⟩
      reqRefused := refused } := by
  cases retry with
  | true =>
    have hnone : s.bridge.memSidePort.sendEvent = none := hs.exclusive hfire
    refine ⟨false, ?_⟩
    rw [← hnone]
    rfl
  | false => exact ⟨s.reqRefused, rfl⟩

theorem fireResp_eq (hs : RespServed s)
    (hfire : if retry then s.respRefused = true
      else s.bridge.cpuSidePort.sendEvent = some s.bridge.curTick) :
    ∃ refused, s.fireResp retry = { s with
      bridge.cpuSidePort := { s.bridge.cpuSidePort with sendEvent := none }
      respRefused := refused } := by
  cases retry with
  | true =>
    have hnone : s.bridge.cpuSidePort.sendEvent = none := hs.exclusive hfire
    refine ⟨false, ?_⟩
    rw [← hnone]
    rfl
  | false => exact ⟨s.respRefused, rfl⟩

theorem fired {P Q : Prop} (h : if retry then P else Q) : Q ∨ P := by
  cases retry with
  | true => exact .inr h
  | false => exact .inl h

theorem Inv.sendReq (h : Inv s) (hen : enabled s (.sendReq retry within taken edge)) :
    ∃ s', s.sendReq retry within taken edge = .ok s' ∧ Inv s' := by
  obtain ⟨hfire, hedge, hedges, hexp⟩ := hen
  obtain ⟨dp, rest, hlist, hdue, hfront⟩ := frontToSend_eq h.reqServed (fired hfire)
  obtain ⟨refused, hs₀⟩ := fireReq_eq h.reqServed hfire
  have hc₀ : Counts (s.fireReq retry) := by
    rw [hs₀]
    exact { h with }
  have hr₀ : RespServed (s.fireReq retry) := by
    rw [hs₀]
    exact h.respServed
  obtain ⟨s₁, hrun, hc₁, hr₁, hsame, harr⟩ := responses_within within hc₀ hr₀ (by rw [hs₀]; exact hedges)
  rw [hs₀] at hsame harr
  have hstart : (s.fireReq retry).bridge.startSendReq = .ok dp.pkt := by
    rw [hs₀]
    exact hfront
  unfold Sys.sendReq Sys.expected at *
  simp only [hstart, ok_bind, hrun]
  obtain ⟨_, _, _, _, rfl⟩ := hsame.eq
  rw [hlist] at hc₁ hr₁ hexp ⊢
  cases taken with
  | true =>
    obtain ⟨event', hnext, hserved⟩ := scheduleNext_eq rest hedge
    simp only [endSendReq, if_true, tail_cons, hnext, ok_bind]
    refine ⟨_, rfl, ⟨⟨?_, hc₁.responses, hc₁.outstanding, hc₁.respLimit, ?_, nofun⟩, hserved,
      hr₁⟩, h.limits, ?_⟩
    · simp only [append_assoc, singleton_append]
      exact hc₁.requests
    · exact le_trans (Nat.le_succ _) hc₁.reqLimit
    · simp only [harr, countP_append]
      exact hexp
  | false => exact ⟨_, rfl, ⟨{ hc₁ with }, served_refused hdue, hr₁⟩, h.limits, le_of_eq_of_le harr hexp⟩

/-- A queued response is one of a request that was accepted and whose response is reserved. -/
theorem Counts.reserved {dp : DeferredPacket} (hc : Counts s)
    (hans : s.arrived.length ≤ s.forwarded.countP (·.needsResponse))
    (hlist : s.bridge.cpuSidePort.transmitList = dp :: rest) :
    s.bridge.cpuSidePort.outstandingResponses ≠ 0 := by
  have hout := hc.outstanding
  rw [hc.requests, countP_append] at hout
  rw [hc.responses, hlist] at hans
  simp only [map_cons, length_append, length_cons] at hans
  omega

/-- A sender stays stalled after a response was returned only if the request queue is full. -/
theorem endSendResp_taken {b : Bridge} {event : Option Nat}
    (hpos : b.cpuSidePort.outstandingResponses ≠ 0) (hlist : b.cpuSidePort.transmitList.tail = rest)
    (hnext : scheduleNext rest b.cpuSidePort.sendEvent edge b.curTick = .ok event) :
    ∃ retryReq, (retryReq = true → b.reqQueueFull = true) ∧
      b.endSendResp true edge = .ok { b with cpuSidePort :=
        ⟨rest, b.cpuSidePort.outstandingResponses - 1, retryReq, event⟩ } := by
  simp only [endSendResp, if_true, hpos, if_false, hlist, hnext, ok_bind]
  cases hretry : b.cpuSidePort.retryReq with
  | false =>
    refine ⟨false, nofun, ?_⟩
    simp only [Bool.and_false, Bool.false_eq_true, if_false]
    rfl
  | true =>
    refine ⟨b.reqQueueFull, fun hfull => hfull, ?_⟩
    cases hfull : b.reqQueueFull with
    | true =>
      rw [if_neg (by simpa [reqQueueFull] using hfull)]
      rfl
    | false =>
      rw [if_pos (by simpa [reqQueueFull] using hfull)]
      rfl

theorem Inv.sendResp (h : Inv s) (hen : enabled s (.sendResp retry within taken edge)) :
    ∃ s', s.sendResp retry within taken edge = .ok s' ∧ Inv s' := by
  obtain ⟨hfire, hedge, hmay⟩ := hen
  obtain ⟨dp, rest, hlist, hdue, hfront⟩ := frontToSend_eq h.respServed (fired hfire)
  obtain ⟨refused, hs₀⟩ := fireResp_eq h.respServed hfire
  have hc₀ : Counts (s.fireResp retry) := by
    rw [hs₀]
    exact { h with }
  have hr₀ : ReqServed (s.fireResp retry) := by
    rw [hs₀]
    exact h.reqServed
  obtain ⟨s₁, hrun, hc₁, hr₁, hsame⟩ := requests_within within hc₀ hr₀ (by rw [hs₀]; exact h.limits)
    (by rw [hs₀]; exact hmay)
  rw [hs₀] at hsame
  have hstart : (s.fireResp retry).bridge.startSendResp = .ok dp.pkt := by
    rw [hs₀]
    exact hfront
  unfold Sys.sendResp
  simp only [hstart, ok_bind, hrun]
  obtain ⟨_, _, _, _, _, rfl⟩ := hsame.eq
  cases taken with
  | true =>
    have hpos := hc₁.reserved h.answered hlist
    obtain ⟨event', hnext, hserved⟩ := scheduleNext_eq rest hedge
    obtain ⟨retryReq, hfull, hend⟩ := endSendResp_taken hpos (by rw [hlist, tail_cons]) hnext
    simp only [hend, ok_bind]
    have hout := hc₁.outstanding
    simp only at hout hpos
    refine ⟨_, rfl, ⟨⟨hc₁.requests, ?_, ?_, ?_, hc₁.reqLimit, ?_⟩, hr₁, hserved⟩, h.limits, h.answered⟩
    · simp only [h.responses, hlist, if_true, map_cons, append_assoc, singleton_append]
    · simp only [if_true, length_append, length_singleton]
      omega
    · exact le_trans (Nat.sub_le _ _) hc₁.respLimit
    · intro hretry
      have hlen := of_decide_eq_true (hfull hretry)
      exact .inl (ne_nil_of_length_pos (lt_of_lt_of_eq h.limits.1 hlen.symm))
  | false =>
    refine ⟨_, rfl, ⟨{ hc₁ with }, hr₁, ?_⟩, h.limits, h.answered⟩
    unfold RespServed
    simp only [hlist, map_cons]
    exact served_refused hdue

/-! ## Runs -/

theorem Inv.tick {t : Nat} (h : Inv s) (hen : enabled s (.tick t)) :
    Inv { s with bridge.curTick := t } := by
  obtain ⟨hle, hreq, hresp⟩ := hen
  exact ⟨⟨{ h with },
    .tick h.reqServed hle hreq, .tick h.respServed hle hresp⟩, h.limits, h.answered⟩

theorem Inv.recvTimingReq (h : Inv s) (hmay : s.MayRequest i) :
    ∃ s', s.recvTimingReq i = .ok s' ∧ Inv s' := by
  obtain ⟨s', hrun, hc, hs, hsame⟩ := recvTimingReq_spec h.toCounts h.reqServed h.limits hmay
  obtain ⟨_, _, _, _, _, rfl⟩ := hsame.eq
  exact ⟨_, hrun, ⟨hc, hs, h.respServed⟩, h.limits, h.answered⟩

theorem Inv.recvTimingResp (h : Inv s) (hen : enabled s (.recvTimingResp i)) :
    ∃ s', s.recvTimingResp i = .ok s' ∧ Inv s' := by
  obtain ⟨hedge, hexp⟩ := hen
  obtain ⟨s', hrun, hc, hs, hsame, harr⟩ := recvTimingResp_spec h.toCounts h.respServed hedge
  obtain ⟨_, _, _, _, rfl⟩ := hsame.eq
  refine ⟨_, hrun, ⟨hc, h.reqServed, hs⟩, h.limits, ?_⟩
  rw [harr, length_append]
  exact hexp

theorem Inv.step {e : Ev} (h : Inv s) (hen : enabled s e) : ∃ s', step s e = .ok s' ∧ Inv s' := by
  cases e with
  | recvTimingReq i => exact h.recvTimingReq hen
  | recvTimingResp i => exact h.recvTimingResp hen
  | sendReq retry within taken edge => exact h.sendReq hen
  | sendResp retry within taken edge => exact h.sendResp hen
  | tick t => exact ⟨_, rfl, h.tick hen⟩

theorem Inv.init (h : machine.init s) : Inv s := by
  obtain ⟨reqQueueLimit, respQueueLimit, hreq, hresp, rfl⟩ := h
  exact ⟨⟨⟨rfl, rfl, rfl, Nat.zero_le _, Nat.zero_le _, nofun⟩, served_nil 0, served_nil 0⟩,
    ⟨hreq, hresp⟩, le_rfl⟩

/-- **Conservation.** In every run no assertion fails, and in every state reached each accepted
request is forwarded once and in order or still queued, each response likewise, the reserved
responses are counted exactly, the limits hold, and nobody waits for nothing. -/
theorem queues_conserved {x : Except Fault Sys} (hr : machine.lts.Reachable x) :
    ∃ s, x = .ok s ∧ Conserved s := by
  obtain ⟨s, rfl, h⟩ := Machine.total (fun s => Inv.init)
    (fun s e h hen _ => h.step hen) (Machine.unguarded hr)
  exact ⟨s, rfl, h.toConserved⟩

instance (s : Sys) (e : Ev) : Decidable (enabled s e) := by
  cases e <;> dsimp only [enabled, Sys.MayRequest] <;> infer_instance

def start : Sys := { bridge := { reqQueueLimit := 1, respQueueLimit := 1 } }

/-- The `n`-th read of the run below. -/
def read (n edge : Nat) : Incoming :=
  ⟨{ id := n, req := 0, cmd := .readReq, addr := 64 * n }, edge, 0⟩

/-- The second read finds the queue full. The first is refused by the memory side, sent again and
answered from within that call; the second comes again from within the call that returns the
response, finds no room for its own and is stalled until then. -/
theorem queues_conserved_two : ∃ s, machine.lts.Reachable (.ok s) ∧
    s.returned.length = 1 ∧ s.bridge.cpuSidePort.retryReq = false ∧ Conserved s := by
  have hr := Machine.lts_decided (M := machine) (P := enabled) (fun _ _ => id)
    [.recvTimingReq (read 1 2), .recvTimingReq (read 2 2), .tick 2, .sendReq false [] false 2,
      .sendReq true [read 1 3] true 2, .tick 3, .sendResp false [read 2 3] true 3]
    (s := start) ⟨1, 1, by decide, by decide, rfl⟩ rfl
  obtain ⟨s, hs, hc⟩ := queues_conserved hr
  cases hs
  exact ⟨_, hr, rfl, rfl, hc⟩

end Gem5Cxl.L3.BridgeQueues
