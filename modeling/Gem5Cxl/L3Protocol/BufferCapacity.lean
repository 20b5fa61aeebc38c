import Mathlib.Algebra.BigOperators.Group.List.Basic
import Gem5Cxl.L2Machine.MessageBuffer

/-!
# A finite message buffer is not overfilled

A run is any sequence of calls at positive ticks that do not decrease. An enqueue at tick
`t` is made only if it is covered: a call of `areNSlotsAvailable n` at `t` has returned true
with fewer than `n` enqueues since (`Grant`).

**Result.** `never_overfull`: if every check asks for an `n` with `n + 2 * maxSize < 2 ^ 32`,
then the heap and the stall map together never hold more than `maxSize` messages, the size
that `areNSlotsAvailable` compares is never less than what they hold, and the assertion of
`enqueue` about it does not fail. `overfull_after_wrap` is a run in which the sum wraps.

**Why.** Within a tick the visible size is at least the actual one: pops do not lower it,
enqueues raise both, and stalls and re-analysis only move messages. So a check leaves at
least `n` places, and the enqueues it covers fill no more than those.
-/
namespace Gem5Cxl.L3.BufferCapacity

open Core L1 L2.Ruby MessageBuffer List

/-- A check that returned true, and the enqueues since. -/
structure Grant where
  tick : Nat
  n : Nat
  since : Nat := 0
deriving DecidableEq, Repr

structure Sys where
  buffer : MessageBuffer
  now : Nat := 0
  grants : List Grant := []

inductive Call
  | areNSlotsAvailable (n : Nat)
  | enqueue (message : Message) (delta random : Nat) (bypassStrictFIFO : Bool)
  | dequeue
  | recycle (recycleLatency : Nat)
  | stallMessage (addr : Nat)
  | reanalyzeMessages (addr : Nat)
  | reanalyzeAllMessages

structure Ev where
  tick : Nat
  call : Call

namespace Sys

/-- A call at tick `now`. -/
def call (s : Sys) : Call → Except Fault Sys
  | .areNSlotsAvailable n =>
    .ok { s with grants := if s.buffer.areNSlotsAvailable n s.now then ⟨s.now, n, 0⟩ :: s.grants else s.grants }
  | .enqueue message delta random bypassStrictFIFO => do
    let buffer ← s.buffer.enqueue message s.now delta random bypassStrictFIFO
    return { s with buffer, grants := s.grants.map fun g => { g with since := g.since + 1 } }
  | .dequeue => do
    let (_, buffer) ← s.buffer.dequeue s.now
    return { s with buffer }
  | .recycle recycleLatency => do
    let buffer ← s.buffer.recycle s.now recycleLatency
    return { s with buffer }
  | .stallMessage addr => do
    let buffer ← s.buffer.stallMessage addr s.now
    return { s with buffer }
  | .reanalyzeMessages addr => do
    let buffer ← s.buffer.reanalyzeMessages addr s.now
    return { s with buffer }
  | .reanalyzeAllMessages => do
    let buffer ← s.buffer.reanalyzeAllMessages s.now
    return { s with buffer }

end Sys

def step (s : Sys) (e : Ev) : Except Fault Sys := { s with now := e.tick }.call e.call

/-- An enqueue at tick `t` is covered. -/
def Covered (grants : List Grant) (t : Nat) : Prop := ∃ g ∈ grants, g.tick = t ∧ g.since < g.n
  deriving Decidable

def enabled (s : Sys) (e : Ev) : Prop :=
  0 < e.tick ∧ s.now ≤ e.tick ∧
    match e.call with
    | .areNSlotsAvailable n => n < 2 ^ 32
    | .enqueue _ _ _ _ => Covered s.grants e.tick
    | _ => True

/-- A new buffer of finite size. -/
def machine : Machine Sys Ev Fault where
  init s := ∃ params : Params, 0 < params.maxSize ∧ params.maxSize < 2 ^ 32 ∧ s = { buffer := { params } }
  enabled := enabled
  step := step

/-- The sums of a check do not wrap. -/
def Fits (s : Sys) (e : Ev) : Prop :=
  match e.call with
  | .areNSlotsAvailable n => n + 2 * s.buffer.params.maxSize < 2 ^ 32
  | _ => True

def stalled (map : List (Nat × List Message)) : Nat := (map.map (·.2.length)).sum

def held (b : MessageBuffer) : Nat := b.prioHeap.length + stalled b.stallMsgMap

/-- The size that `areNSlotsAvailable` compares. -/
def visible (b : MessageBuffer) (t : Nat) : Nat := u32 ((b.currentSizes t).1 + (b.currentSizes t).2)

structure Capacity (s : Sys) : Prop where
  notOverfull : held s.buffer ≤ s.buffer.params.maxSize
  notHidden : ∀ t, s.now ≤ t → held s.buffer ≤ visible s.buffer t

/-! ## What the calls do to the sizes -/

theorem u32_of_lt {n : Nat} (h : n < 2 ^ 32) : u32 n = n := by
  unfold u32
  omega

@[simp] theorem stalled_nil : stalled [] = 0 := rfl

variable (map : List (Nat × List Message))

theorem stalled_eq : stalled map = (map.flatMap Prod.snd).length :=
  length_flatMap.symm

theorem stalled_pushStalled (addr : Nat) (msg : Message) (map : List (Nat × List Message)) :
    stalled (pushStalled addr msg map) = stalled map + 1 := by
  rw [stalled_eq, (pushStalled_perm addr msg map).length_eq, length_cons, stalled_eq]

variable {addr t : Nat} {b b' : MessageBuffer} {s : Sys}

theorem stalled_eraseP {map : List (Nat × List Message)} {entry : Nat × List Message}
    (h : map.find? (fun entry => entry.1 = addr) = some entry) :
    stalled (map.eraseP fun entry => entry.1 = addr) + entry.2.length = stalled map := by
  obtain ⟨l₁, l₂, hmap, herase⟩ := find_stalled h
  rw [herase, hmap]
  simp only [stalled, map_append, map_cons, sum_append, sum_cons]
  omega

/-- The numbers from which the visible size is taken. -/
structure SameCounts (b b' : MessageBuffer) : Prop where
  params : b'.params = b.params
  timeLastTimeEnqueue : b'.timeLastTimeEnqueue = b.timeLastTimeEnqueue
  timeLastTimePop : b'.timeLastTimePop = b.timeLastTimePop
  sizeAtCycleStart : b'.sizeAtCycleStart = b.sizeAtCycleStart
  stalledAtCycleStart : b'.stalledAtCycleStart = b.stalledAtCycleStart
  msgsThisCycle : b'.msgsThisCycle = b.msgsThisCycle

theorem SameCounts.eq (h : SameCounts b b') :
    b' = { b' with
      params := b.params
      timeLastTimeEnqueue := b.timeLastTimeEnqueue
      timeLastTimePop := b.timeLastTimePop
      sizeAtCycleStart := b.sizeAtCycleStart
      stalledAtCycleStart := b.stalledAtCycleStart
      msgsThisCycle := b.msgsThisCycle } := by
  obtain ⟨h₁, h₂, h₃, h₄, h₅, h₆⟩ := h
  rw [← h₁, ← h₂, ← h₃, ← h₄, ← h₅, ← h₆]

/-- `m_stall_map_size` is what it says. -/
def StallCounted (b : MessageBuffer) : Prop := b.stallMapSize = stalled b.stallMsgMap

/-- Messages are moved, none comes or goes. -/
structure Moved (b b' : MessageBuffer) : Prop extends SameCounts b b' where
  held : held b' = held b
  stall : StallCounted b → StallCounted b'

/-- The fault of a buffer that is filled too much. -/
def Overfull (e : Fault) : Prop := e = .assertion .withinMaxSize

theorem readyFront_spec (b : MessageBuffer) (t : Nat) :
    Ensures Overfull (fun front => b.prioHeap = front.1 :: front.2) (b.readyFront t) := by
  have hready : Ensures Overfull (fun _ => True) (b.isReady t) := by
    cases hheap : b.prioHeap <;> simp [isReady, hheap, Overfull]
  refine hready.bind fun ready _ => ?_
  split
  · exact .ok ‹_›
  · exact .error (by simp [Overfull])

theorem recycle_spec (b : MessageBuffer) (t latency : Nat) :
    Ensures Overfull (Moved b) (b.recycle t latency) := by
  refine (readyFront_spec b t).bind fun front hheap => .ok ⟨⟨rfl, rfl, rfl, rfl, rfl, rfl⟩, ?_, fun hs => hs⟩
  simp [BufferCapacity.held, hheap, (push_perm _ _).length_eq]

theorem avoids_reanalyzeEntry (t : Nat) (b : MessageBuffer) (entry : Nat × List Message) :
    Avoids Overfull (reanalyzeEntry t b entry) := by
  have hlist : ∀ b : MessageBuffer, Avoids Overfull (b.reanalyzeList entry.2 t) := fun b =>
    .foldlM (fun b m => by simp [Overfull]) _ _
  simp [reanalyzeEntry, hlist, Overfull]

theorem reanalyzeEntries_spec {rest : List (Nat × List Message)} (hs : StallCounted b)
    (hrest : stalled rest + stalled map = stalled b.stallMsgMap) :
    Ensures Overfull
      (fun b₁ => b₁.stallMsgMap = b.stallMsgMap ∧ Moved b { b₁ with stallMsgMap := rest })
      (map.foldlM (reanalyzeEntry t) b) := by
  refine ⟨fun b₁ h => ?_, .foldlM (avoids_reanalyzeEntry t) _ b⟩
  unfold StallCounted at hs
  obtain ⟨-, -, rfl⟩ := (reanalyzeEntries_iff (by omega)).1 h
  refine ⟨rfl, ⟨rfl, rfl, rfl, rfl, rfl, rfl⟩, ?_, fun _ => ?_⟩
  · simp only [BufferCapacity.held, (foldl_push_perm _ _).length_eq, length_append, ← stalled_eq]
    omega
  · simp only [StallCounted, hs, ← stalled_eq]
    omega

theorem reanalyzeMessages_spec (hs : StallCounted b) :
    Ensures Overfull (Moved b) (b.reanalyzeMessages addr t) := by
  unfold MessageBuffer.reanalyzeMessages
  split
  · exact .error (by simp [Overfull])
  · rename_i entry hfind
    have hone := reanalyzeEntries_spec (t := t) [entry] hs (stalled_eraseP hfind)
    simp only [foldlM_cons, foldlM_nil, bind_pure] at hone
    exact hone.bind fun b₁ h => .ok (h.1 ▸ h.2)

theorem reanalyzeAllMessages_spec (hs : StallCounted b) :
    Ensures Overfull (Moved b) (b.reanalyzeAllMessages t) :=
  (reanalyzeEntries_spec _ hs (by simp)).bind fun _ h => .ok h.2

structure Popped (t : Nat) (b b' : MessageBuffer) : Prop extends SameCounts (b.countPop t) b' where
  nonempty : held b ≠ 0
  held : held b' ≤ held b
  stall : StallCounted b → StallCounted b'

theorem dequeue_spec (b : MessageBuffer) (t : Nat) :
    Ensures Overfull (fun r => Popped t b r.2 ∧ held r.2 < held b) (b.dequeue t) := by
  refine (readyFront_spec b t).bind fun front hheap => ?_
  have hticks : Ensures Overfull (fun _ => True) (front.1.updateDelayedTicks t) := by
    simp [Message.updateDelayedTicks, Overfull]
  refine hticks.bind fun msg _ => .ok ?_
  obtain ⟨x, y, z, n, hcount⟩ := countPop_eq b t
  have hheld : held { b.countPop t with prioHeap := front.2 } < held b := by
    simp only [held, hheap, hcount, length_cons]
    omega
  refine ⟨⟨⟨rfl, rfl, rfl, rfl, rfl, rfl⟩, ne_of_gt (Nat.zero_lt_of_lt hheld), le_of_lt hheld, fun hs => ?_⟩, hheld⟩
  rw [hcount]
  exact hs

theorem stallMessage_spec (b : MessageBuffer) (addr t : Nat) :
    Ensures Overfull (Popped t b) (b.stallMessage addr t) := by
  refine (readyFront_spec b t).bind fun _ _ => ?_
  simp only [ensures_ite, ensures_error]
  refine ⟨fun _ => by simp [Overfull], fun _ => (dequeue_spec b t).bind fun r h => .ok ?_⟩
  obtain ⟨hp, hlt⟩ := h
  refine ⟨⟨hp.params, hp.timeLastTimeEnqueue, hp.timeLastTimePop, hp.sizeAtCycleStart, hp.stalledAtCycleStart,
    hp.msgsThisCycle⟩, hp.nonempty, ?_, fun hs => ?_⟩
  · simp only [BufferCapacity.held, stalled_pushStalled] at hlt ⊢
    omega
  · have hstall := hp.stall hs
    simp only [StallCounted, stalled_pushStalled] at hstall ⊢
    omega

structure Enqueued (t : Nat) (b b' : MessageBuffer) :
    Prop extends SameCounts (b.countEnqueue t) b' where
  length : b'.prioHeap.length = b.prioHeap.length + 1
  stallMsgMap : b'.stallMsgMap = b.stallMsgMap
  stallMapSize : b'.stallMapSize = b.stallMapSize

theorem enqueue_spec {message : Message} {delta random : Nat} {bypass : Bool}
    (hroom : (b.prioHeap.length + 1 + b.stallMapSize : Int) ≤ b.params.maxSize) :
    Ensures Overfull (Enqueued t b) (b.enqueue message t delta random bypass) := by
  obtain ⟨x, y, hcount⟩ := countEnqueue_eq b t
  -- the other checks of `enqueue` are not about room
  simp only [MessageBuffer.enqueue, Message.updateDelayedTicks, ensures_ite, ensures_error, ensures_bind, ensures_ok,
    (push_perm _ _).length_eq, Overfull, reduceCtorEq, Fault.assertion.injEq, not_false_eq_true, implies_true, true_and,
    not_true_eq_false, imp_false]
  intro _ _ _ _ _
  refine ⟨fun hfull => ?_, fun _ => ?_⟩
  · have hlt := hfull.2
    simp [hcount] at hlt
    omega
  · refine .ok ⟨⟨rfl, rfl, rfl, rfl, rfl, rfl⟩, ?_, ?_, ?_⟩
    · simp [hcount, (push_perm _ _).length_eq]
    · simp [hcount]
    · simp [hcount]

/-! ## The invariant -/

/-- The messages enqueued at tick `now`. -/
def Sys.enqueuedNow (s : Sys) : Nat :=
  if s.buffer.timeLastTimeEnqueue = s.now then s.buffer.msgsThisCycle else 0

structure Unused (b : MessageBuffer) : Prop where
  held : held b = 0
  sizeAtCycleStart : b.sizeAtCycleStart = 0
  stalledAtCycleStart : b.stalledAtCycleStart = 0
  msgsThisCycle : b.msgsThisCycle = 0

structure Inv (s : Sys) : Prop where
  positive : 0 < s.buffer.params.maxSize
  stall : StallCounted s.buffer
  bound : held s.buffer ≤ s.buffer.params.maxSize
  enqueueTime : s.buffer.timeLastTimeEnqueue ≤ s.now
  popTime : s.buffer.timeLastTimePop ≤ s.now
  enqueued : s.enqueuedNow ≤ s.buffer.params.maxSize
  -- without a pop at this tick, what came at it is still there
  unpopped : s.buffer.timeLastTimePop < s.now → s.enqueuedNow ≤ held s.buffer
  popped : s.buffer.timeLastTimePop = s.now →
    held s.buffer ≤ s.buffer.sizeAtCycleStart + s.buffer.stalledAtCycleStart + s.enqueuedNow ∧
      s.buffer.sizeAtCycleStart + s.buffer.stalledAtCycleStart ≤ s.buffer.params.maxSize
  granted : ∀ g ∈ s.grants, g.tick ≤ s.now ∧ (g.tick = s.now → g.since < g.n →
    held s.buffer + g.n ≤ s.buffer.params.maxSize + g.since ∧
      s.enqueuedNow + g.n ≤ s.buffer.params.maxSize + g.since)
  wide : 2 * s.buffer.params.maxSize < 2 ^ 32 ∨ Unused s.buffer ∧ s.grants = []

section

variable (h : Inv s)
include h

theorem Inv.advance (ht : s.now ≤ t) : Inv { s with now := t } := by
  rcases eq_or_lt_of_le ht with rfl | hlt
  · exact h
  have hnone : Sys.enqueuedNow { s with now := t } = 0 := by
    have := h.enqueueTime
    refine if_neg ?_
    simp only
    omega
  have hpop := h.popTime
  refine ⟨h.positive, h.stall, h.bound, le_trans h.enqueueTime ht, le_trans hpop ht, by omega, fun _ => by omega,
    fun heq => ?_, ?_, h.wide⟩
  · simp only at heq
    omega
  · intro g hg
    have hle := (h.granted g hg).1
    refine ⟨le_trans hle ht, fun heq => ?_⟩
    simp only at heq
    omega

theorem Inv.lt : held s.buffer < 2 ^ 32 ∧ (s.buffer.timeLastTimePop = s.now →
    s.buffer.sizeAtCycleStart + s.buffer.stalledAtCycleStart + s.enqueuedNow < 2 ^ 32) := by
  rcases h.wide with hwide | ⟨hu, -⟩
  · have hbound := h.bound
    have henq := h.enqueued
    refine ⟨by omega, fun heq => ?_⟩
    have hstart := (h.popped heq).2
    omega
  · have hmsgs : s.enqueuedNow = 0 := by
      unfold Sys.enqueuedNow
      rw [hu.msgsThisCycle]
      exact ite_self 0
    rw [hu.held, hu.sizeAtCycleStart, hu.stalledAtCycleStart, hmsgs]
    exact ⟨by decide, fun _ => by decide⟩

theorem Inv.sizes : u32 s.buffer.prioHeap.length = s.buffer.prioHeap.length ∧
    u32 s.buffer.stallMapSize = stalled s.buffer.stallMsgMap := by
  have hlt := h.lt.1
  unfold held at hlt
  rw [h.stall]
  exact ⟨u32_of_lt (by omega), u32_of_lt (by omega)⟩

/-- The visible size of a check: no sum has wrapped, and it is enough. -/
theorem Inv.currentSizes :
    ∃ size stall, s.buffer.currentSizes s.now = (size, stall) ∧ held s.buffer ≤ size + stall ∧
      s.enqueuedNow ≤ size + stall ∧ size + stall ≤ 2 * s.buffer.params.maxSize ∧
        size + stall < 2 ^ 32 := by
  have hbound := h.bound
  have henq := h.enqueued
  obtain ⟨hlt, hstartlt⟩ := h.lt
  rw [MessageBuffer.currentSizes]
  by_cases hpop : s.buffer.timeLastTimePop < s.now
  · have hunpopped := h.unpopped hpop
    obtain ⟨hsize, hstall⟩ := h.sizes
    unfold held at *
    refine ⟨s.buffer.prioHeap.length, stalled s.buffer.stallMsgMap, ?_, le_rfl, hunpopped, by omega, hlt⟩
    rw [if_pos hpop, hsize, hstall]
  · have heq : s.buffer.timeLastTimePop = s.now := le_antisymm h.popTime (not_lt.1 hpop)
    obtain ⟨hheld, hstart⟩ := h.popped heq
    have hle := h.enqueueTime
    rw [if_neg hpop]
    by_cases hlast : s.buffer.timeLastTimeEnqueue < s.now
    · have hnone : s.enqueuedNow = 0 := if_neg (by omega)
      refine ⟨s.buffer.sizeAtCycleStart, s.buffer.stalledAtCycleStart, ?_, by omega, by omega, by omega, by omega⟩
      rw [if_pos hlast]
    · have hmsgs : s.enqueuedNow = s.buffer.msgsThisCycle := if_pos (by omega)
      refine ⟨s.buffer.sizeAtCycleStart + s.buffer.msgsThisCycle, s.buffer.stalledAtCycleStart, ?_, by omega,
        by omega, by omega, by omega⟩
      have hsum : u32 (s.buffer.sizeAtCycleStart + s.buffer.msgsThisCycle : Nat) =
          s.buffer.sizeAtCycleStart + s.buffer.msgsThisCycle := u32_of_lt (by omega)
      rw [if_neg hlast, ← hsum]
      rfl

theorem Inv.visible : held s.buffer ≤ visible s.buffer s.now := by
  obtain ⟨size, stall, hsizes, hheld, -, -, hlt⟩ := h.currentSizes
  have hsum : u32 (size + stall : Nat) = size + stall := u32_of_lt hlt
  rw [BufferCapacity.visible, hsizes]
  exact hheld.trans hsum.ge

theorem Inv.capacity : Capacity s :=
  ⟨h.bound, fun _ ht => (h.advance ht).visible⟩

/-! ## The calls -/

theorem Inv.areNSlotsAvailable {n : Nat} (hfits : n + 2 * s.buffer.params.maxSize < 2 ^ 32) :
    Inv { s with grants :=
      if s.buffer.areNSlotsAvailable n s.now then ⟨s.now, n, 0⟩ :: s.grants else s.grants } := by
  have hwide : 2 * s.buffer.params.maxSize < 2 ^ 32 := by omega
  have hpos := h.positive
  refine ⟨hpos, h.stall, h.bound, h.enqueueTime, h.popTime, h.enqueued, h.unpopped, h.popped, ?_, .inl hwide⟩
  intro g hg
  split at hg
  · rename_i havail
    rcases mem_cons.1 hg with rfl | hg
    · obtain ⟨size, stall, hsizes, hheld, henq, hle, -⟩ := h.currentSizes
      have hsum : u32 (size + stall + n : Nat) = size + stall + n := u32_of_lt (by omega)
      have hroom : size + stall + n ≤ s.buffer.params.maxSize := by
        rw [← hsum]
        unfold MessageBuffer.areNSlotsAvailable at havail
        rw [if_neg (by omega), hsizes] at havail
        simpa using havail
      exact ⟨le_rfl, fun _ _ => ⟨by simp only; omega, by
        show s.enqueuedNow + n ≤ _
        simp only
        omega⟩⟩
    · exact h.granted g hg
  · exact h.granted g hg

theorem Inv.moved (hm : Moved s.buffer b) : Inv { s with buffer := b } := by
  have hheld := hm.held
  have hstall := hm.stall h.stall
  rw [hm.toSameCounts.eq] at hheld hstall ⊢
  exact ⟨h.positive, hstall, hheld ▸ h.bound, h.enqueueTime, h.popTime, h.enqueued, hheld ▸ h.unpopped,
    hheld ▸ h.popped, hheld ▸ h.granted, h.wide.imp_right fun hu =>
      ⟨⟨hheld.trans hu.1.held, hu.1.sizeAtCycleStart, hu.1.stalledAtCycleStart, hu.1.msgsThisCycle⟩, hu.2⟩⟩

theorem Inv.pop (hp : Popped s.now s.buffer b) : Inv { s with buffer := b } := by
  have hheld := hp.held
  have hstall := hp.stall h.stall
  have hbound := h.bound
  -- the sizes at the first pop of the tick are those now, or were taken before
  obtain ⟨x, y, n, hcount, hstart, hmax⟩ : ∃ x y n, s.buffer.countPop s.now = { s.buffer with
      sizeAtCycleStart := x, stalledAtCycleStart := y, timeLastTimePop := s.now, dequeuesThisCy := n } ∧
      held s.buffer ≤ x + y + s.enqueuedNow ∧ x + y ≤ s.buffer.params.maxSize := by
    unfold countPop
    split
    · obtain ⟨hlen, hsize⟩ := h.sizes
      unfold held at *
      exact ⟨u32 s.buffer.prioHeap.length, u32 s.buffer.stallMapSize, _, rfl, by omega, by omega⟩
    · rename_i hpop
      have heq : s.buffer.timeLastTimePop = s.now := le_antisymm h.popTime (not_lt.1 hpop)
      exact ⟨_, _, _, by rw [← heq], h.popped heq⟩
  have heq := hp.toSameCounts.eq
  rw [hcount] at heq
  rw [heq] at hheld hstall ⊢
  refine ⟨h.positive, hstall, le_trans hheld hbound, h.enqueueTime, le_rfl, h.enqueued,
    fun hlt => absurd hlt (lt_irrefl _), fun _ => ⟨le_trans hheld hstart, hmax⟩, fun g hg => ?_,
    h.wide.imp_right fun hu => absurd hu.1.held hp.nonempty⟩
  refine ⟨(h.granted g hg).1, fun htick hlt => ?_⟩
  obtain ⟨hroom, hrest⟩ := (h.granted g hg).2 htick hlt
  exact ⟨le_trans (Nat.add_le_add_right hheld _) hroom, hrest⟩

end

theorem countEnqueue_now (h : s.buffer.timeLastTimeEnqueue ≤ s.now)
    (hlt : s.enqueuedNow + 1 < 2 ^ 32) :
    s.buffer.countEnqueue s.now = { s.buffer with
      timeLastTimeEnqueue := s.now, msgsThisCycle := s.enqueuedNow + 1, msgCounter :=
        s.buffer.msgCounter + 1 } := by
  have hsum : u32 (s.enqueuedNow + 1 : Nat) = s.enqueuedNow + 1 := u32_of_lt hlt
  unfold countEnqueue
  split
  · have hnone : s.enqueuedNow = 0 := if_neg (by omega)
    rw [hnone]
    rfl
  · have hmsgs : s.enqueuedNow = s.buffer.msgsThisCycle := if_pos (by omega)
    have htime : s.buffer.timeLastTimeEnqueue = s.now := by omega
    rw [← hsum, hmsgs, ← htime]
    rfl

theorem Inv.enqueue (h : Inv s) (hcov : Covered s.grants s.now) (he : Enqueued s.now s.buffer b) :
    Inv
      { s with buffer := b, grants := s.grants.map fun g => { g with since := g.since + 1 } } := by
  obtain ⟨g₀, hg₀, htick₀, hlt₀⟩ := hcov
  obtain ⟨hroom₀, hrest₀⟩ := (h.granted g₀ hg₀).2 htick₀ hlt₀
  have hwide : 2 * s.buffer.params.maxSize < 2 ^ 32 := by
    refine h.wide.resolve_right fun hu => ?_
    rw [hu.2] at hg₀
    exact (nomatch hg₀)
  have hcount := countEnqueue_now h.enqueueTime (by omega)
  have hheld : held b = held s.buffer + 1 := by
    unfold held
    rw [he.length, he.stallMsgMap]
    omega
  have hstall : StallCounted b := by
    rw [StallCounted, he.stallMapSize, he.stallMsgMap]
    exact h.stall
  have henq : ∀ grants, Sys.enqueuedNow { s with buffer := b, grants } = s.enqueuedNow + 1 := by
    intro grants
    simp only [Sys.enqueuedNow, he.timeLastTimeEnqueue, he.msgsThisCycle, hcount, if_true]
  have heq := he.toSameCounts.eq
  simp only [hcount] at heq
  rw [heq] at hheld hstall henq ⊢
  have hbound : held s.buffer + 1 ≤ s.buffer.params.maxSize := by omega
  have hnow : s.enqueuedNow + 1 ≤ s.buffer.params.maxSize := by omega
  refine ⟨h.positive, hstall, hheld.trans_le hbound, le_rfl, h.popTime, (henq _).trans_le hnow, fun hlt => ?_,
    fun heq => ?_, fun g hg => ?_, .inl hwide⟩
  · rw [henq, hheld]
    exact Nat.succ_le_succ (h.unpopped hlt)
  · rw [henq, hheld]
    exact ⟨Nat.succ_le_succ (h.popped heq).1, (h.popped heq).2⟩
  · obtain ⟨g', hg', rfl⟩ := mem_map.1 hg
    rw [henq]
    refine ⟨(h.granted g' hg').1, fun heq hlt => ?_⟩
    obtain ⟨hroom, hrest⟩ := (h.granted g' hg').2 heq (Nat.lt_of_succ_lt hlt)
    exact ⟨by simp only; omega, by simp only; omega⟩

/-! ## Runs -/

theorem Inv.call {c : Call} (h : Inv s)
    (hcov : ∀ m d r b, c = .enqueue m d r b → Covered s.grants s.now)
    (hfits : ∀ n, c = .areNSlotsAvailable n → n + 2 * s.buffer.params.maxSize < 2 ^ 32) :
    Ensures Overfull Inv (s.call c) := by
  cases c with
  | areNSlotsAvailable n => exact .ok (h.areNSlotsAvailable (hfits n rfl))
  | enqueue message delta random bypass =>
    have hcov := hcov _ _ _ _ rfl
    -- a covered enqueue finds room
    have hroom : s.buffer.prioHeap.length + 1 + s.buffer.stallMapSize ≤ s.buffer.params.maxSize := by
      obtain ⟨g, hg, htick, hlt⟩ := hcov
      have hle := ((h.granted g hg).2 htick hlt).1
      rw [h.stall]
      unfold held at hle
      omega
    exact (enqueue_spec hroom).bind fun b hb => .ok (h.enqueue hcov hb)
  | dequeue => exact (dequeue_spec _ _).bind fun r hr => .ok (h.pop hr.1)
  | recycle latency => exact (recycle_spec _ _ _).bind fun b hb => .ok (h.moved hb)
  | stallMessage addr => exact (stallMessage_spec _ _ _).bind fun b hb => .ok (h.pop hb)
  | reanalyzeMessages addr => exact (reanalyzeMessages_spec h.stall).bind fun b hb => .ok (h.moved hb)
  | reanalyzeAllMessages => exact (reanalyzeAllMessages_spec h.stall).bind fun b hb => .ok (h.moved hb)

theorem Inv.step {e : Ev} (h : Inv s) (hen : enabled s e) (hfits : Fits s e) :
    Ensures Overfull Inv (step s e) := by
  obtain ⟨t, c⟩ := e
  obtain ⟨-, hle, hcall⟩ := hen
  refine (h.advance hle).call ?_ ?_
  · rintro m d r b rfl
    exact hcall
  · rintro n rfl
    exact hfits

theorem Inv.init (h : machine.init s) : Inv s := by
  obtain ⟨params, hpos, -, rfl⟩ := h
  refine ⟨hpos, rfl, Nat.zero_le _, le_rfl, le_rfl, ?_, fun _ => ?_, fun _ => ⟨Nat.zero_le _, ?_⟩,
    nofun, .inr ⟨⟨rfl, rfl, rfl, rfl⟩, rfl⟩⟩
  · exact Nat.zero_le _
  · exact le_rfl
  · exact Nat.zero_le _

/-- **Capacity.** If the sum of every check is below 2^32, the buffer never holds more than its
maximum size, a check never sees less than it holds, and `enqueue` does not find it overfull. -/
theorem never_overfull {x : Except Fault Sys} (hr : (machine.under Fits).Reachable x) :
    (∀ s, x = .ok s → Capacity s) ∧ x ≠ .error (.assertion .withinMaxSize) := by
  obtain ⟨hinv, hfault⟩ := Machine.ensured (fun s => .init) (fun s e => Inv.step) hr
  exact ⟨fun s hs => (hinv s hs).capacity, fun hx => hfault _ hx rfl⟩

instance (s : Sys) : (e : Ev) → Decidable (enabled s e)
  | ⟨_, c⟩ => by cases c <;> dsimp only [enabled] <;> infer_instance

instance (s : Sys) : (e : Ev) → Decidable (Fits s e)
  | ⟨_, c⟩ => by cases c <;> dsimp only [Fits] <;> infer_instance

def start (maxSize : Nat) : Sys := { buffer := { params := { maxSize } } }

def put : Call := .enqueue { time := 1, lastEnqueueTime := 1 } 1 0 false

/-- Two messages come at tick 1. At tick 2 one is popped and one stalled, and a check at that tick
still sees two, so that the buffer of size three has room for one more. -/
theorem never_overfull_three : ∃ s, (machine.under Fits).Reachable (.ok s) ∧
    held s.buffer = 2 ∧ visible s.buffer 2 = 3 ∧ Capacity s ∧
      (Except.ok s : Except Fault Sys) ≠ .error (.assertion .withinMaxSize) := by
  have hr := Machine.under_decided (M := machine)
    (P := fun s e => enabled s e ∧ Fits s e) (fun _ _ => id)
    [⟨1, .areNSlotsAvailable 2⟩, ⟨1, put⟩, ⟨1, put⟩, ⟨2, .dequeue⟩, ⟨2, .stallMessage 64⟩,
      ⟨2, .areNSlotsAvailable 2⟩, ⟨2, .areNSlotsAvailable 1⟩, ⟨2, put⟩]
    (s := start 3) ⟨_, by decide, by decide, rfl⟩ rfl
  obtain ⟨hcap, hfault⟩ := never_overfull hr
  exact ⟨_, hr, rfl, rfl, hcap _ rfl, hfault⟩

/-- **Wrap-around.** A buffer of size one holds a message. A check for 2^32 - 1 slots returns true,
and the enqueue that it covers fails the assertion. -/
theorem overfull_after_wrap : ∃ s, machine.lts.Reachable (.ok s) ∧ s.buffer.params.maxSize = 1 ∧
    held s.buffer = 1 ∧ s.buffer.areNSlotsAvailable (2 ^ 32 - 1) s.now = true ∧
      Covered s.grants s.now ∧ machine.lts.Reachable (.error (.assertion .withinMaxSize)) := by
  have hr := fun ls {y} => Machine.lts_decided (M := machine) (y := y) (P := enabled) (fun _ _ => id) ls
    (s := start 1) ⟨_, by decide, by decide, rfl⟩
  exact ⟨_, hr [⟨1, .areNSlotsAvailable 1⟩, ⟨1, put⟩, ⟨1, .areNSlotsAvailable (2 ^ 32 - 1)⟩] rfl, rfl, rfl,
    by decide +kernel,
    ⟨⟨1, 2 ^ 32 - 1, 0⟩, mem_cons_self, rfl, by decide⟩,
    hr [⟨1, .areNSlotsAvailable 1⟩, ⟨1, put⟩, ⟨1, .areNSlotsAvailable (2 ^ 32 - 1)⟩, ⟨1, put⟩] rfl⟩

end Gem5Cxl.L3.BufferCapacity
