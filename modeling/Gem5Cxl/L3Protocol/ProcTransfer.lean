import Gem5Cxl.L2Machine.ProcPort
import Gem5Cxl.L3Protocol.ChunkRuns

/-!
# Transfers of the CXL processor in timing mode

`Serves` is what the port promises its callers and its peer: the chunks of the
calls are taken by the peer in order and once, the port never stops with a
chunk left unless the peer owes it a retry, `pendingCount` counts the packets in
flight, a request state lives until its last byte is answered, every response is
taken, every retry makes the port offer the refused chunk again, and a drain
request is answered with "drained" only when nothing is left to do.

The sending half keeps all of it. The receiving half does not exist: the port
refuses every response and ignores every retry, and its drain answer looks at
`pendingCount` alone.

* `sends_served`: the promises hold along every run in which the peer neither
  answers nor retries, and no drain is asked for while a chunk is queued and
  nothing is in flight (`Sending`).
* `first_answer_refused`: what happens with the first answer, with the first
  retry, and with a drain request after a refusal.
-/
namespace Gem5Cxl.L3.ProcTransfer

open Core L1 L2 L3.ChunkRuns ProcPort List Machine

/-- `answered`: the packets whose response the port took; `owesRetry`: the peer
refused an offer and has not sent its retry; then the broken promises. -/
structure Sys where
  world : World := {}
  answered : List ChunkPacket := []
  owesRetry : Bool := false
  refusedResponses : List ChunkPacket := []
  ignoredRetries : Nat := 0
  earlyDrains : Nat := 0

inductive Ev
  | cxlWrite (addr size : Nat) (accept : Bool)
  | cxlRead (addr size : Nat) (accept : Bool)
  | sendEvent (accept : Bool)
  | retry (accept : Bool)
  | response (pkt : ChunkPacket)
  | drain

/-- The port after a call of it, and the packet it offered meanwhile. -/
def Sys.absorb (s : Sys) (w : World) (accept : Bool) (r : ChunkPort × Option ChunkPacket) : Sys :=
  match r.2 with
  | some pkt => { s with world := w.offer r.1 pkt accept, owesRetry := s.owesRetry || !accept }
  | none => { s with world := { w with port := r.1 } }

/-- The port has work that a drain must wait for. -/
def Sys.unfinished (s : Sys) : Bool :=
  s.world.port.transmitList ≠ [] || s.world.port.inRetry.isSome || s.world.inFlight ≠ []

def Sys.response (s : Sys) (pkt : ChunkPacket) : Sys :=
  let (p, taken) := ProcPort.recvTimingResp s.world.port pkt
  if taken then
    { s with world := { s.world with port := p, inFlight := s.world.inFlight.erase pkt },
             answered := s.answered ++ [pkt] }
  else { s with world := { s.world with port := p },
                refusedResponses := s.refusedResponses ++ [pkt] }

/-- The peer's retry ends its debt, whether or not the port uses it. -/
def Sys.retry (s : Sys) (accept : Bool) : Sys :=
  let r := ProcPort.recvReqRetry s.world.port
  { { s with owesRetry := false }.absorb s.world accept r with
    ignoredRetries := s.ignoredRetries + if r.2.isNone then 1 else 0 }

def Sys.drain (s : Sys) : Sys :=
  { s with earlyDrains := s.earlyDrains +
      if ProcPort.drain s.world.port = .drained ∧ s.unfinished then 1 else 0 }

/-- The world in which a call has been made, before the port sends. -/
def Sys.called (c : Nat) (s : Sys) (call : Call) : World :=
  s.world.push c call (ProcPort.newState c call.addr call.size call.cmd)

def step (c : Nat) (s : Sys) : Ev → Except Fault Sys
  | .cxlWrite addr size accept => do
    let r ← ProcPort.cxlWrite c s.world.port s.world.calls.length addr size accept
    .ok (s.absorb (s.called c ⟨.writeReq, addr, size⟩) accept r)
  | .cxlRead addr size accept => do
    let r ← ProcPort.cxlRead c s.world.port s.world.calls.length addr size accept
    .ok (s.absorb (s.called c ⟨.readReq, addr, size⟩) accept r)
  | .sendEvent accept => do
    let r ← ProcPort.sendPacket { s.world.port with sendEvent := false } accept
    .ok (s.absorb s.world accept r)
  | .retry accept => .ok (s.retry accept)
  | .response pkt => .ok (s.response pkt)
  | .drain => .ok s.drain

/-- What callers and a peer that follows the timing protocol do. -/
def enabled (s : Sys) : Ev → Prop
  | .cxlWrite addr size _ => addr < 2 ^ 64 ∧ 0 < size ∧ size < 2 ^ 31
  | .cxlRead addr size _ => addr < 2 ^ 64 ∧ 0 < size ∧ size < 2 ^ 31
  | .sendEvent _ => s.world.port.sendEvent = true
  | .retry _ => s.owesRetry = true
  | .response pkt => pkt ∈ s.world.inFlight
  | .drain => True

def machine (c : Nat) : Machine Sys Ev Fault where
  init s := s = {}
  enabled := enabled
  step := step c

theorem init_empty (c : Nat) : (machine c).init {} := rfl

/-! ## The promises -/

/-- All packets of a list of calls, in call order. -/
def allPackets (c : Nat) (calls : List Call) : List ChunkPacket :=
  calls.zipIdx.flatMap fun x => packets c x.2 x.1

structure Serves (c : Nat) (s : Sys) : Prop where
  inOrder : s.world.accepted <+: allPackets c s.world.calls
  complete : s.world.port.transmitList = [] → s.world.accepted = allPackets c s.world.calls
  goesOn : s.world.port.transmitList ≠ [] → s.world.port.sendEvent = true ∨ s.owesRetry = true
  pending : s.world.port.pendingCount = s.world.inFlight.length
  released : ∀ i call, s.world.calls[i]? = some call →
    ((s.world.port.states i).isSome = true ↔ bytesOf i s.answered < call.size)
  responses : s.refusedResponses = []
  retries : s.ignoredRetries = 0
  drains : s.earlyDrains = 0

/-- The peer neither answers nor retries, no drain is asked for while a chunk is
queued and nothing is in flight, and the counters do not wrap. -/
def Sending (c : Nat) (s : Sys) : Ev → Prop
  | .cxlWrite addr size _ =>
    ChunkGenerator.Fits c addr size ∧ s.world.inFlight.length + 1 < 2 ^ 32
  | .cxlRead addr size _ =>
    ChunkGenerator.Fits c addr size ∧ s.world.inFlight.length + 1 < 2 ^ 32
  | .sendEvent _ => s.world.inFlight.length + 1 < 2 ^ 32
  | .retry _ => False
  | .response _ => False
  | .drain => s.world.port.transmitList = [] ∨ s.world.port.pendingCount ≠ 0

/-! ## The invariant of a sending run -/

/-- The part of the invariant that is about the calls and their packets. -/
structure Planned (c : Nat) (w : World) : Prop where
  books : Books c w
  plan : w.accepted ++ w.owed = allPackets c w.calls
  alive : ∀ i, i < w.calls.length → (w.port.states i).isSome = true
  cmds : ∀ call ∈ w.calls, call.cmd = .writeReq ∨ call.cmd = .readReq
  sizes : ∀ call ∈ w.calls, 0 < call.size

structure Inv (c : Nat) (s : Sys) : Prop where
  planned : Planned c s.world
  flags : Flags s.world.port
  owes : s.owesRetry = s.world.port.retryPending
  answered : s.answered = []
  responses : s.refusedResponses = []
  retries : s.ignoredRetries = 0
  drains : s.earlyDrains = 0

theorem allPackets_snoc (c : Nat) (calls : List Call) (call : Call) :
    allPackets c (calls ++ [call]) = allPackets c calls ++ packets c calls.length call := by
  simp [allPackets, zipIdx_append]

section Run

variable {k : Nat} {s : Sys} {pkt : ChunkPacket} {c : Nat}

theorem Inv.serves (h : Inv (2 ^ k) s) : Serves (2 ^ k) s := by
  have hp := h.planned
  refine ⟨⟨_, hp.plan⟩, ?_, ?_, hp.books.counted, ?_, h.responses, h.retries, h.drains⟩
  · intro hl
    rw [← hp.plan, hp.books.queued.nil_iff.1 hl, append_nil]
  · intro hl
    rw [h.owes]
    exact h.flags.busy hl
  · -- nothing is answered, so every request state is alive
    intro i call hcall
    have hi := (List.getElem?_eq_some_iff.1 hcall).1
    have hpos := hp.sizes call (mem_of_getElem? hcall)
    have hz : bytesOf i s.answered = 0 := by rw [h.answered]; rfl
    rw [hz]
    exact ⟨fun _ => hpos, fun _ => hp.alive i hi⟩

variable {w : World}

theorem Planned.push (hk : k < 64) (h : Planned (2 ^ k) w) {call : Call}
    {st : ReqState} (ha : call.addr < 2 ^ 64) (hpos : 0 < call.size)
    (hf : ChunkGenerator.Fits (2 ^ k) call.addr call.size)
    (hcall : call.cmd = .writeReq ∨ call.cmd = .readReq)
    (hcmd : st.cmd = call.cmd) (hgen : st.gen = .new call.addr call.size (2 ^ k)) :
    Planned (2 ^ k) (w.push (2 ^ k) call st) := by
  refine ⟨h.books.push hk ha hf hcmd hgen, ?_, ?_, ?_, ?_⟩
  · show w.accepted ++ (w.owed ++ _) = _
    rw [← append_assoc, h.plan]
    exact (allPackets_snoc _ _ _).symm
  · intro i hi
    show (Function.update w.port.states w.calls.length (some st) i).isSome = true
    by_cases he : i = w.calls.length
    · rw [he, Function.update_self]
      rfl
    · rw [Function.update_of_ne he]
      have : i < w.calls.length + 1 := by simpa [World.push] using hi
      exact h.alive i (by omega)
  · intro x hx
    rcases mem_append.1 hx with hx | hx
    · exact h.cmds x hx
    · rw [mem_singleton.1 hx]
      exact hcall
  · intro x hx
    rcases mem_append.1 hx with hx | hx
    · exact h.sizes x hx
    · rw [mem_singleton.1 hx]
      exact hpos

theorem Planned.cmd_of_owed (h : Planned c w) (ho : pkt ∈ w.owed) :
    pkt.cmd = .writeReq ∨ pkt.cmd = .readReq := by
  have hm : pkt ∈ allPackets c w.calls := h.plan ▸ mem_append_right _ ho
  obtain ⟨x, hx, hpkt⟩ := mem_flatMap.1 hm
  obtain ⟨q, -, rfl⟩ := mem_map.1 hpkt
  exact h.cmds x.1 (fst_mem_of_mem_zipIdx hx)

theorem Planned.offer {p : ChunkPort} {accept : Bool}
    (h : Planned c w) (ho : w.owed.head? = some pkt) (hb : Books c (w.offer p pkt accept))
    (hst : ∀ j, (p.states j).map account = (w.port.states j).map account) :
    Planned c (w.offer p pkt accept) := by
  have halive : ∀ i, i < w.calls.length → (p.states i).isSome = true := by
    intro i hi
    have := congrArg Option.isSome (hst i)
    simp only [Option.isSome_map] at this
    rw [this]
    exact h.alive i hi
  cases accept with
  | false => exact ⟨hb, h.plan, halive, h.cmds, h.sizes⟩
  | true =>
    refine ⟨hb, ?_, halive, h.cmds, h.sizes⟩
    obtain ⟨m, hm⟩ := head?_eq_some_iff.1 ho
    have hplan := h.plan
    rw [hm] at hplan
    show (w.accepted ++ [pkt]) ++ w.owed.tail = _
    rw [append_assoc, hm]
    exact hplan

/-- What `sendPacket` does with a queue that is not empty: nothing while the port
waits, else one offer. -/
theorem sendPacket_cases (h : Planned (2 ^ k) w) (hne : w.port.transmitList ≠ [])
    (accept : Bool) (hroom : w.inFlight.length + 1 < 2 ^ 32) :
    ((w.port.retryPending = true ∨ w.port.sendEvent = true) ∧
      sendPacket w.port accept = .ok (w.port, none)) ∨
    ∃ p pkt, w.port.retryPending = false ∧ sendPacket w.port accept = .ok (p, some pkt) ∧
      Planned (2 ^ k) (w.offer p pkt accept) ∧ Flags p ∧ p.retryPending = !accept := by
  by_cases hw : w.port.retryPending = true ∨ w.port.sendEvent = true
  · refine .inl ⟨hw, ?_⟩
    simp only [sendPacket, ChunkPort.sendWith, if_neg hne, Bool.or_eq_true, if_pos hw]
  · have hp : w.port.retryPending = false := by simpa using fun h => hw (.inl h)
    have he : w.port.sendEvent = false := by simpa using fun h => hw (.inr h)
    obtain ⟨p, pkt, hsend, ho, -, -, hb, hf, hr, -, hst⟩ :=
      h.books.offer (Nat.two_pow_pos k) hne hp he accept fun _ => hroom
    refine .inr ⟨p, pkt, hp, ?_, h.offer ho hb hst, hf, hr⟩
    -- the packet passes the check of its command
    obtain ⟨m, hm⟩ := head?_eq_some_iff.1 ho
    have hcmd : pkt.cmd = .writeReq ∨ pkt.cmd = .readReq := h.cmd_of_owed (hm ▸ mem_cons_self)
    have hnext : w.port.nextPacket = .ok pkt := by
      obtain ⟨i, -, hs⟩ := bind_eq_ok.1 hsend
      obtain ⟨st, -, hs⟩ := bind_eq_ok.1 hs
      obtain ⟨pkt', hpkt, hs⟩ := bind_eq_ok.1 hs
      obtain ⟨p', -, hs⟩ := bind_eq_ok.1 hs
      cases hs
      exact hpkt
    have htry : trySendTimingReq w.port accept = .ok (p, pkt) := by
      simp only [trySendTimingReq, hnext, ok_bind, if_pos hcmd, hsend]
    simp only [sendPacket, ChunkPort.sendWith, if_neg hne, hp, he, htry, ok_bind, Bool.or_self,
      Bool.false_eq_true, if_false]

theorem Inv.call (hk : k < 64) (h : Inv (2 ^ k) s) (call : Call) (accept : Bool)
    (ha : call.addr < 2 ^ 64) (hpos : 0 < call.size)
    (hcall : call.cmd = .writeReq ∨ call.cmd = .readReq)
    (hf : ChunkGenerator.Fits (2 ^ k) call.addr call.size)
    (hroom : s.world.inFlight.length + 1 < 2 ^ 32) :
    ∃ r, execCXLProc (2 ^ k) s.world.port s.world.calls.length call.addr call.size
        call.cmd accept = .ok r ∧
      Inv (2 ^ k) (s.absorb (s.called (2 ^ k) call) accept r) := by
  have hpl : Planned (2 ^ k) (s.called (2 ^ k) call) :=
    h.planned.push hk ha hpos hf hcall rfl rfl
  have hne : (s.called (2 ^ k) call).port.transmitList ≠ [] := by
    simp [Sys.called, World.push, ChunkPort.push]
  rcases sendPacket_cases hpl hne accept hroom with ⟨hw, hs⟩ | ⟨p, pkt, hp, hs, hpl', hfl, hr⟩
  · refine ⟨_, hs, hpl, ?_, h.owes, h.answered, h.responses, h.retries, h.drains⟩
    exact ⟨h.flags.waits, fun _ => hne, fun _ => hw.symm, h.flags.held⟩
  · refine ⟨_, hs, hpl', ?_, ?_, h.answered, h.responses, h.retries, h.drains⟩
    · cases accept <;> exact hfl
    · have ho : s.owesRetry = false := h.owes.trans hp
      cases accept <;> simp_all [Sys.absorb, World.offer]

theorem Inv.sendEvent (h : Inv (2 ^ k) s) (accept : Bool)
    (hev : s.world.port.sendEvent = true) (hroom : s.world.inFlight.length + 1 < 2 ^ 32) :
    ∃ r, sendPacket { s.world.port with sendEvent := false } accept = .ok r ∧
      Inv (2 ^ k) (s.absorb s.world accept r) := by
  have hp := h.flags.not_pending hev
  let w : World := { s.world with port.sendEvent := false }
  have hpl : Planned (2 ^ k) w := by
    have hb := h.planned.books
    exact ⟨{ hb with }, h.planned.plan, h.planned.alive,
      h.planned.cmds, h.planned.sizes⟩
  rcases sendPacket_cases hpl (h.flags.event hev) accept hroom with
    ⟨hw, -⟩ | ⟨p, pkt, -, hs, hpl', hfl, hr⟩
  · rcases hw with hw | hw
    · exact absurd (hp.symm.trans hw) (by simp)
    · cases hw
  · refine ⟨_, hs, hpl', ?_, ?_, h.answered, h.responses, h.retries, h.drains⟩
    · cases accept <;> exact hfl
    · have ho : s.owesRetry = false := h.owes.trans hp
      cases accept <;> simp_all [Sys.absorb, World.offer]

/-- A drain request that finds packets in flight, or nothing queued, is answered rightly. -/
theorem Inv.drain (h : Inv (2 ^ k) s)
    (hd : s.world.port.transmitList = [] ∨ s.world.port.pendingCount ≠ 0) :
    Inv (2 ^ k) s.drain := by
  have hnot : ¬ (ProcPort.drain s.world.port = .drained ∧ s.unfinished = true) := by
    rintro ⟨hdr, hu⟩
    have hz : s.world.port.pendingCount = 0 := by
      by_contra hne
      simp [ProcPort.drain, ChunkPort.drain, hne] at hdr
    have hl : s.world.port.transmitList = [] := hd.resolve_right fun hne => hne hz
    have hb := h.planned.books
    have hi : s.world.inFlight = [] := length_eq_zero_iff.1 (hb.counted.symm.trans hz)
    have hr : s.world.port.inRetry = none := by
      cases hr : s.world.port.inRetry with
      | none => rfl
      | some r =>
        have hh := hb.held r hr
        rw [hb.queued.nil_iff.1 hl] at hh
        cases hh
    simp [Sys.unfinished, hl, hi, hr] at hu
  refine { h with drains := ?_ }
  simp only [Sys.drain, if_neg hnot, h.drains]

theorem inv_step (hk : k < 64) (h : Inv (2 ^ k) s) {e : Ev} (he : enabled s e)
    (hg : Sending (2 ^ k) s e) : ∃ s', step (2 ^ k) s e = .ok s' ∧ Inv (2 ^ k) s' := by
  cases e with
  | cxlWrite addr size accept =>
    obtain ⟨r, hr, hi⟩ := h.call hk ⟨.writeReq, addr, size⟩ accept he.1 he.2.1 (.inl rfl) hg.1 hg.2
    exact ⟨_, bind_eq_ok.2 ⟨r, hr, rfl⟩, hi⟩
  | cxlRead addr size accept =>
    obtain ⟨r, hr, hi⟩ := h.call hk ⟨.readReq, addr, size⟩ accept he.1 he.2.1 (.inr rfl) hg.1 hg.2
    exact ⟨_, bind_eq_ok.2 ⟨r, hr, rfl⟩, hi⟩
  | sendEvent accept =>
    obtain ⟨r, hr, hi⟩ := h.sendEvent accept he hg
    exact ⟨_, bind_eq_ok.2 ⟨r, hr, rfl⟩, hi⟩
  | retry accept | response pkt => exact absurd hg id
  | drain => exact ⟨_, rfl, h.drain hg⟩

theorem inv_init (c : Nat) : Inv c {} := by
  refine ⟨⟨books_init _, rfl, ?_, ?_, ?_⟩, flags_init, rfl, rfl, rfl, rfl, rfl⟩
  · intro i hi
    exact absurd hi (Nat.not_lt_zero i)
  · intro call hcall
    cases hcall
  · intro call hcall
    cases hcall

end Run

/-! ## What the port does and does not do -/

/-- **The sending half serves its callers.** In every run in which the peer
neither answers nor retries, and no drain is asked for while a chunk is queued
and nothing is in flight, no step faults and every promise is kept. -/
theorem sends_served {k : Nat} (hk : k < 64) {x : Except Fault Sys}
    (hr : ((machine (2 ^ k)).under (Sending (2 ^ k))).Reachable x) :
    ∃ s, x = .ok s ∧ Serves (2 ^ k) s := by
  obtain ⟨s, hs, hi⟩ := total (fun s hs => hs ▸ inv_init _)
    (fun s e h he hg => inv_step hk h he hg) hr
  exact ⟨s, hs, hi.serves⟩

/-- The decidable part of `enabled`, for computed runs. -/
def possible (s : Sys) : Ev → Bool
  | .cxlWrite addr size _ => decide (addr < 2 ^ 64 ∧ 0 < size ∧ size < 2 ^ 31)
  | .cxlRead addr size _ => decide (addr < 2 ^ 64 ∧ 0 < size ∧ size < 2 ^ 31)
  | .sendEvent _ => s.world.port.sendEvent
  | .retry _ => s.owesRetry
  | .response pkt => decide (pkt ∈ s.world.inFlight)
  | .drain => true

theorem enabled_of_possible {s : Sys} {e : Ev} (h : possible s e = true) : enabled s e := by
  cases e <;> simp_all [possible, enabled]

/-- `enabled` and `Sending` for lines of 64 bytes, for computed runs. -/
def sendable (s : Sys) (e : Ev) : Bool :=
  possible s e &&
    match e with
    | .cxlWrite addr size _ =>
      decide (ChunkGenerator.Fits (2 ^ 6) addr size ∧ s.world.inFlight.length + 1 < 2 ^ 32)
    | .cxlRead addr size _ =>
      decide (ChunkGenerator.Fits (2 ^ 6) addr size ∧ s.world.inFlight.length + 1 < 2 ^ 32)
    | .sendEvent _ => decide (s.world.inFlight.length + 1 < 2 ^ 32)
    | .retry _ => false
    | .response _ => false
    | .drain => decide (s.world.port.transmitList = [] ∨ s.world.port.pendingCount ≠ 0)

theorem sending_of_sendable {s : Sys} {e : Ev} (h : sendable s e = true) :
    enabled s e ∧ Sending (2 ^ 6) s e := by
  simp only [sendable, Bool.and_eq_true] at h
  refine ⟨enabled_of_possible h.1, ?_⟩
  cases e <;> simp_all [Sending]

/-- A write of two lines goes out as two packets. -/
theorem sends_served_two_lines :
    ∃ s, ((machine (2 ^ 6)).under (Sending (2 ^ 6))).Reachable (.ok s) ∧
      s.world.accepted = [⟨0, .writeReq, ⟨0x80000020, 32⟩⟩, ⟨0, .writeReq, ⟨0x80000040, 16⟩⟩] ∧
      ∃ t, Except.ok s = (.ok t : Except Fault Sys) ∧ Serves (2 ^ 6) t := by
  have hrun := fun {y} => under_runs (M := machine (2 ^ 6)) sendable
    (fun _ _ => sending_of_sendable) [.cxlWrite 0x80000020 48 true, .drain, .sendEvent true]
    (y := y) (under_init (init_empty _))
  exact ⟨_, hrun rfl, rfl, sends_served (by decide) (hrun rfl)⟩

/-- **The receiving half does not exist.** After a read of one line: the port
refuses the peer's answer; and if the peer refused the read first, its retry is
ignored, nothing is left that would ever send the chunk, and a drain request is
answered with "drained" while the read is still queued. -/
theorem first_answer_refused :
    (∃ s, (machine (2 ^ 6)).lts.Reachable (.ok s) ∧
      s.refusedResponses = [⟨0, .readReq, ⟨0x80000000, 64⟩⟩] ∧ ¬ Serves (2 ^ 6) s) ∧
    ∃ s, (machine (2 ^ 6)).lts.Reachable (.ok s) ∧ s.ignoredRetries = 1 ∧ s.earlyDrains = 1 ∧
      s.world.port.transmitList = [0] ∧ s.world.port.sendEvent = false ∧ s.owesRetry = false ∧
      ¬ Serves (2 ^ 6) s := by
  have hrun := fun {y} ls => lts_runs (M := machine (2 ^ 6)) possible
    (fun _ _ => enabled_of_possible) ls (y := y) (lts_init (init_empty _))
  refine ⟨⟨_, hrun [.cxlRead 0x80000000 64 true, .response ⟨0, .readReq, ⟨0x80000000, 64⟩⟩] rfl,
    rfl, ?_⟩, ⟨_, hrun [.cxlRead 0x80000000 64 false, .retry true, .drain] rfl,
    rfl, rfl, rfl, rfl, rfl, ?_⟩⟩
  · intro h
    exact absurd h.responses (by simp [Sys.response, recvTimingResp])
  · intro h
    exact absurd h.retries (by decide)

end Gem5Cxl.L3.ProcTransfer
