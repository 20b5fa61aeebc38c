import Gem5Cxl.L2Machine.IoCache
import Gem5Cxl.L3Protocol.SendQueue

/-!
# CXL packets through the I/O cache

A cache marked `is_iocache` hands a CXL request that its CPU-side port accepts to the port below at
once. Is every such request taken there?

**Result.** Only if the port below never refuses one (`below_taken`): then each is taken once, in
order, a sender that is refused has its retry to come, and each response is sent once or waits in the
queue with a wake-up due. A refusal stops the simulation (`refusal_asserts`).

**Why.** `Cache::recvTimingReq` asserts that its send succeeds, where a port that is refused is to wait
for `recvReqRetry` and send again (mem/port.hh:250-256).

The rest of the cache may block and unblock the CPU-side port and queue responses at any time. Ports do
not refuse express snoops.
-/
namespace Gem5Cxl.L3.IoCacheBypass

open Core L1 L2 L2.IoCache Machine

/-- `accepted` counts the CXL requests that the port took, each with its number as `id`;
`below` is what the port below has taken for them. -/
structure Sys where
  port : CpuSidePort := {}
  resp : SendQueue.State
  accepted : Nat := 0
  below : List Packet := []
deriving Repr

inductive Event
  | recvTimingReq (pkt : Packet) (type : CXLPacketType) (wholeLine success : Bool)
  | setBlocked
  | clearBlocked
  | processSendRetry
  /-- A CXL response from below. -/
  | recvTimingResp (pkt : Packet) (completionTime : Nat)
  /-- An ordinary response, a send to the CPU side, or the clock. -/
  | resp (e : SendQueue.Event)

/-- mirrors mem/cache/base.cc:176-184 (`processSendRetry`), 492-505 (`recvTimingResp`) and
2605-2621 (`recvTimingReq`) -/
def step (s : Sys) : Event → Except Fault Sys
  | .recvTimingReq pkt type wholeLine success =>
    if !pkt.cmd.isRequest then .error (.assertion .isRequest)
    else match tryTiming s.port pkt with
      | (port, false) => .ok { s with port }
      | (port, true) => do
        let sent ← recvTimingReq wholeLine type success { pkt with id := s.accepted }
        if type = .defaultPacket then .ok { s with port }
        else .ok { s with port, accepted := s.accepted + 1, below := s.below ++ sent.toList }
  | .setBlocked => do
    let port ← setBlocked s.port
    .ok { s with port }
  | .clearBlocked => do
    let port ← clearBlocked s.port s.resp.queue.curTick
    .ok { s with port }
  | .processSendRetry => .ok { s with port := { s.port with mustSendRetry := false, sendRetryEvent := none } }
  | .recvTimingResp pkt completionTime =>
    if !pkt.cmd.isResponse then .error (.assertion .isResponse)
    else do
      let resp ← SendQueue.step s.resp (.schedSendTiming pkt completionTime)
      .ok { s with resp }
  | .resp e => do
    let resp ← SendQueue.step s.resp e
    .ok { s with resp }

def enabled (s : Sys) : Event → Prop
  | .recvTimingReq pkt _ _ success => pkt.cmd.isRequest = true ∧ (pkt.cacheResponding = true →
      pkt.cmd.needsWritable = true ∧ pkt.responderHadWritable = false ∧ success = true)
  | .setBlocked => s.port.blocked = false
  | .clearBlocked => s.port.blocked = true
  | .processSendRetry => s.port.sendRetryEvent = some s.resp.queue.curTick
  | .recvTimingResp pkt completionTime =>
    pkt.cmd.isResponse = true ∧ SendQueue.enabled s.resp (.schedSendTiming pkt completionTime)
  | .resp e => SendQueue.enabled s.resp e ∧
    ∀ t, s.port.sendRetryEvent = some t → ∀ tick, e = .advance tick → tick ≤ t

/-- The queue keeps the order of packets to one address. mirrors mem/cache/base.cc:71-80 -/
def machine : Machine Sys Event Fault where
  init s := ∃ curTick, s = { resp := ⟨{ forceOrder := true, curTick }, 0, []⟩ }
  enabled := enabled
  step := step

/-- The port below takes every CXL request, and no response is queued for `MaxTick`. -/
def Takes (s : Sys) : Event → Prop
  | .recvTimingReq _ type _ success => type ≠ .defaultPacket → success = true
  | .recvTimingResp pkt completionTime => SendQueue.Finite s.resp (.schedSendTiming pkt completionTime)
  | .resp e => SendQueue.Finite s.resp e
  | _ => True

/-- The requests are taken in order, and the port that refuses has its retry to come. -/
structure Inv (s : Sys) : Prop where
  requests : s.below.map (·.id) = List.range s.accepted
  retries : s.port.mustSendRetry = true → s.port.blocked = true ∨ s.port.sendRetryEvent.isSome = true
  event : s.port.blocked = true → s.port.sendRetryEvent = none
  responses : SendQueue.Inv s.resp

section

variable {s : Sys} {type : CXLPacketType} {success : Bool}

theorem needsWritable_promote (wholeLine : Bool) (pkt : Packet) :
    (promoteWholeLineWrites wholeLine pkt).cmd.needsWritable = pkt.cmd.needsWritable := by
  unfold promoteWholeLineWrites
  split
  · simp_all
    decide
  · rfl

/-- What the port below takes for a CXL request is that request, or its express snoop. -/
theorem recvTimingReq_taken (pkt : Packet) (wholeLine : Bool) (hc : pkt.cacheResponding = true →
      pkt.cmd.needsWritable = true ∧ pkt.responderHadWritable = false ∧ success = true)
    (hg : type ≠ .defaultPacket → success = true) :
    ∃ sent, recvTimingReq wholeLine type success pkt = .ok sent ∧
      (type ≠ .defaultPacket → sent.toList.map (·.id) = [pkt.id]) := by
  rw [recvTimingReq, needsWritable_promote]
  by_cases hr : pkt.cacheResponding = true
  · obtain ⟨hw, hn, rfl⟩ := hc hr
    simp [promoteWholeLineWrites, hr, hw, hn]
  · by_cases ht : type = .defaultPacket
    · simp [promoteWholeLineWrites, hr, ht]
    · simp [promoteWholeLineWrites, hr, ht, hg ht]

theorem tryTiming_port (p : CpuSidePort) (pkt : Packet) :
    ∃ b taken, tryTiming p pkt = ({ p with mustSendRetry := b }, taken) ∧
      (b = true → p.blocked = true ∨ p.mustSendRetry = true) := by
  unfold tryTiming
  split
  · exact ⟨_, _, rfl, .inr⟩
  split
  · exact ⟨_, _, rfl, fun _ => by simp_all⟩
  · exact ⟨_, _, rfl, nofun⟩

theorem Inv.recvTimingReq {pkt : Packet} {wholeLine : Bool} (h : Inv s)
    (he : enabled s (.recvTimingReq pkt type wholeLine success))
    (hg : Takes s (.recvTimingReq pkt type wholeLine success)) :
    ∃ s', step s (.recvTimingReq pkt type wholeLine success) = .ok s' ∧ Inv s' := by
  obtain ⟨sent, hsent, hid⟩ := recvTimingReq_taken { pkt with id := s.accepted } wholeLine he.2 hg
  obtain ⟨b, taken, hport, hb⟩ := tryTiming_port s.port pkt
  have hretries : b = true → s.port.blocked = true ∨ s.port.sendRetryEvent.isSome = true :=
    fun hb' => (hb hb').elim .inl h.retries
  simp only [step, he.1, hport]
  cases taken with
  | false => exact ⟨_, rfl, h.requests, hretries, h.event, h.responses⟩
  | true =>
    simp only [hsent, ok_bind]
    by_cases ht : type = .defaultPacket
    · exact ⟨_, if_pos ht, h.requests, hretries, h.event, h.responses⟩
    · refine ⟨_, if_neg ht, ?_, hretries, h.event, h.responses⟩
      simp [h.requests, hid ht, List.range_succ]

theorem Inv.resp {e : SendQueue.Event} (h : Inv s) (he : SendQueue.enabled s.resp e)
    (hg : SendQueue.Finite s.resp e) : step s (.resp e) = .error SendQueue.sanityPanic ∨
      ∃ s', step s (.resp e) = .ok s' ∧ Inv s' := by
  rcases h.responses.step he hg with hp | ⟨q, hq, hi⟩
  · exact .inl (by simp [step, hp])
  · exact .inr ⟨{ s with resp := q }, by simp [step, hq], h.requests, h.retries, h.event, hi⟩

theorem Inv.step {e : Event} (h : Inv s) (he : enabled s e) (hg : Takes s e) :
    IoCacheBypass.step s e = .error SendQueue.sanityPanic ∨
      ∃ s', IoCacheBypass.step s e = .ok s' ∧ Inv s' := by
  cases e with
  | recvTimingReq pkt type wholeLine success => exact .inr (h.recvTimingReq he hg)
  | setBlocked =>
    -- a retry that was scheduled is noted in the flag
    have hb : s.port.blocked = false := he
    simp only [IoCacheBypass.step, setBlocked, hb]
    exact .inr ⟨_, rfl, h.requests, fun _ => .inl rfl, fun _ => rfl, h.responses⟩
  | clearBlocked =>
    have hb : s.port.blocked = true := he
    simp only [IoCacheBypass.step, clearBlocked, hb, h.event hb]
    cases hm : s.port.mustSendRetry with
    | false => exact .inr ⟨_, rfl, h.requests, nofun, nofun, h.responses⟩
    | true =>
      have hnow : ¬ s.resp.queue.curTick + 1 < s.resp.queue.curTick := by omega
      simp only [schedule, hnow]
      exact .inr ⟨_, rfl, h.requests, fun _ => .inr rfl, nofun, h.responses⟩
  | processSendRetry => exact .inr ⟨_, rfl, h.requests, nofun, fun _ => rfl, h.responses⟩
  | recvTimingResp pkt completionTime =>
    simp only [IoCacheBypass.step, he.1]
    exact h.resp he.2 hg
  | resp e => exact h.resp he.1 hg

end

/-- **CXL packets pass the I/O cache if the port below takes every request.** -/
theorem below_taken {x : Except Fault Sys} (hr : (machine.under Takes).Reachable x) :
    x = .error SendQueue.sanityPanic ∨ ∃ s, x = .ok s ∧ Inv s := by
  have hinit : ∀ s, machine.init s → Inv s := by
    rintro s ⟨curTick, rfl⟩
    exact ⟨rfl, nofun, nofun, .init ⟨true, false, curTick, rfl⟩⟩
  exact total_or hinit (fun _ _ => Inv.step) hr

/-! ## Runs on fixed requests -/

def start : Sys := { resp := ⟨{ forceOrder := true }, 0, []⟩ }

def request (success : Bool) : Event :=
  .recvTimingReq { req := 0, cmd := .readReq, addr := 64 } .cxlMemPacket false success

/-- A request passes, the next is refused while the port is blocked, and a response is queued. -/
theorem below_taken_blocked : ∃ s, (machine.under Takes).Reachable (.ok s) ∧
    s.accepted = 1 ∧ s.port.mustSendRetry = true ∧ s.resp.enqueued = 1 ∧ Inv s := by
  have h₀ : (machine.under Takes).Reachable (.ok start) := under_init ⟨0, rfl⟩
  have h₁ := under_step (request true) h₀ ⟨rfl, nofun⟩ (fun _ => rfl) rfl
  have h₂ := under_step Event.setBlocked h₁ rfl trivial rfl
  have h₃ := under_step (request true) h₂ ⟨rfl, nofun⟩ (fun _ => rfl) rfl
  have h₄ := under_step (Event.recvTimingResp { req := 0, cmd := .readResp, addr := 64 } 2) h₃
    ⟨rfl, by decide, rfl⟩ (by decide : 2 ≠ maxTick) rfl
  obtain ⟨s, hs, hk⟩ := (below_taken h₄).resolve_left nofun
  cases hs
  exact ⟨_, h₄, rfl, rfl, rfl, hk⟩

/-- The port below refuses a CXL request. -/
theorem refusal_asserts : machine.lts.Reachable (.error (.assertion .sendSucceeded)) :=
  .step (l := request false) (lts_init ⟨0, rfl⟩) ⟨start, rfl, ⟨rfl, nofun⟩, rfl⟩

end Gem5Cxl.L3.IoCacheBypass
