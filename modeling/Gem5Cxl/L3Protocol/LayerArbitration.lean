import Mathlib.Data.List.Nodup
import Gem5Cxl.L2Machine.TimedLayer

/-!
# Arbitration for a crossbar layer loses no port

A port that is refused, by the layer or by the component behind it, says nothing
more until it is sent a retry. So the layer must remember it. A run is any
sequence of sends, firings of the release event and retries of the component
behind the layer; a retried port may send before its call returns, or not, and
so may others (`State.retrying`).

* `Waiting`: the ports that wait are exactly those refused, in the order in
  which they are to be retried.
* `Clocked`: the layer is busy exactly while its release event is scheduled.
* `no_port_lost`: in every run, no assertion fails, every refused port waits
  once, and the layer is never left with waiting ports and nothing to wake
  them; ports are retried in the order in which they came, except that the one
  refused by the component behind the layer goes first.
-/
namespace Gem5Cxl.L3.LayerArbitration

open Core L1 L2 Function TimedLayer List

/-- Who refused a port: the component behind the layer, or the layer, and as
which refusal of the run. -/
inductive Refusal | peer | layer (n : Nat)
deriving DecidableEq, Repr

/-- The order of retries. -/
def Before : Option Refusal → Option Refusal → Prop
  | some .peer, some (.layer _) => True
  | some (.layer n), some (.layer m) => n < m
  | _, _ => False

structure State (P : Type) extends TimedLayer P where
  /-- The port that is being retried: the layer is inside `retryWaiting`. -/
  retrying : Option P := none
  /-- The refusal of each port that has not been sent a retry since. -/
  refusal : P → Option Refusal := fun _ => none
  /-- How often the layer has refused a port. -/
  arrivals : Nat := 0

inductive Event (P : Type)
  /-- A port sends a packet. If it wins the layer, the component behind takes the packet or
  does not, and the layer is busy until `busyTime`. -/
  | send (src : P) (accepted : Bool) (busyTime : Nat)
  | release
  | recvRetry
  /-- The call of the retried port returns. -/
  | returned
  | advance (tick : Nat)
deriving DecidableEq, Repr

section

variable {P : Type} [DecidableEq P]

def State.retry (s : State P) (t : TimedLayer P) : Option P → State P
  | none => { s with toTimedLayer := t }
  | some p =>
    { s with toTimedLayer := t, retrying := some p, refusal := Function.update s.refusal p none }

def step (clockEdge : Nat → Nat) (s : State P) : Event P → Except Fault (State P)
  | .send src accepted busyTime => do
    let (t, won) ← s.tryTiming src
    if won then
      if accepted then do
        let t ← t.succeededTiming busyTime
        .ok { s with toTimedLayer := t }
      else do
        let t ← t.failedTiming src busyTime
        .ok { s with toTimedLayer := t, refusal := Function.update s.refusal src (some .peer) }
    else .ok { s with
      toTimedLayer := t
      refusal := Function.update s.refusal src (some (.layer s.arrivals))
      arrivals := s.arrivals + 1 }
  | .release => do
    let (t, port) ← { s.toTimedLayer with releaseEvent := none }.releaseLayer
    .ok (s.retry t port)
  | .recvRetry => do
    let (t, port) ← s.toTimedLayer.recvRetry
    .ok (s.retry t port)
  | .returned => do
    let t ← s.toTimedLayer.retryReturned clockEdge
    .ok { s with toTimedLayer := t, retrying := none }
  | .advance tick => .ok { s with curTick := tick }

/-- A refused port waits for its retry, busy times are future ticks, events fire at their ticks
and between calls, and the component behind the layer sends a retry after a refusal. -/
def enabled (s : State P) : Event P → Prop
  | .send src _ busyTime => s.refusal src = none ∧ busyTime ≠ 0 ∧ s.curTick ≤ busyTime
  | .release => s.retrying = none ∧ s.releaseEvent = some s.curTick
  | .recvRetry => s.layer.waitingForPeer ≠ none
  | .returned => s.retrying ≠ none
  | .advance tick => s.retrying = none ∧ s.curTick ≤ tick ∧
    ∀ r, s.releaseEvent = some r → tick ≤ r

def machine (P : Type) [DecidableEq P] (clockEdge : Nat → Nat) :
    Machine (State P) (Event P) Fault where
  init s := ∃ tick, s = { curTick := tick }
  enabled := enabled
  step := step clockEdge

/-! ## What is asked -/

/-- Every refused port waits, in one place and once. -/
def Kept (s : State P) : Prop :=
  ∀ p, s.refusal p ≠ none →
    (s.layer.waitingForPeer = some p ∧ p ∉ s.layer.waitingForLayer) ∨
      (s.layer.waitingForPeer ≠ some p ∧ s.layer.waitingForLayer.count p = 1)

structure AtRest (s : State P) : Prop where
  notRetry : s.layer.state ≠ .retry
  wakes : s.layer.waitingForLayer ≠ [] →
    (s.layer.state = .busy ∧ s.releaseEvent ≠ none) ∨ s.layer.waitingForPeer ≠ none

end

/-! ## The invariant -/

section

variable {P : Type} {tick : Nat} {s : State P} {t : TimedLayer P}

/-- The ports that wait are those refused, in the order of their retries. -/
structure Waiting (l : Layer P) (refusal : P → Option Refusal) (arrivals : Nat) : Prop where
  mem : ∀ p, refusal p ≠ none ↔ p ∈ l.waitingForLayer ∨ l.waitingForPeer = some p
  peer : ∀ p, l.waitingForPeer = some p → refusal p = some .peer
  stamps : ∀ p n, refusal p = some (.layer n) → n < arrivals
  sorted : l.waitingForLayer.Pairwise fun p q => Before (refusal p) (refusal q)
  first : l.waitingForPeer ≠ none ∨ l.state = .retry →
    ∀ q ∈ l.waitingForLayer, ∃ n, refusal q = some (.layer n)

structure Clocked (s : State P) : Prop where
  busy : s.layer.state = .busy ↔ s.releaseEvent ≠ none
  event : ∀ r, s.releaseEvent = some r → r ≠ 0 ∧ s.curTick ≤ r
  retry : s.layer.state = .retry → s.retrying ≠ none ∧ s.layer.waitingForPeer = none
  idle : s.layer.state = .idle → s.retrying = none
  wake : s.layer.state = .idle → s.layer.waitingForLayer ≠ [] → s.layer.waitingForPeer ≠ none
  started : s.retrying ≠ none ∨ s.layer.state = .idle ∧ s.layer.waitingForPeer ≠ none →
    s.curTick ≠ 0

structure Inv (s : State P) : Prop where
  waiting : Waiting s.layer s.refusal s.arrivals
  clocked : Clocked s

/-! ## Waiting ports -/

theorem Before.ne {a b : Option Refusal} (h : Before a b) : a ≠ b := by
  rintro rfl
  rcases a with _ | _ | n
  · exact h
  · exact h
  · exact Nat.lt_irrefl n h

theorem Before.layer {a b : Option Refusal} (h : Before a b) : ∃ n, b = some (.layer n) := by
  rcases b with _ | _ | n
  · rcases a with _ | _ | n <;> exact h.elim
  · rcases a with _ | _ | n <;> exact h.elim
  · exact ⟨n, rfl⟩

namespace Waiting

variable {l : Layer P} {refusal : P → Option Refusal} {arrivals : Nat} {p src : P} {ps : List P}

theorem nodup (h : Waiting l refusal arrivals) : l.waitingForLayer.Nodup :=
  h.sorted.imp fun hb hpq => hb.ne (congrArg refusal hpq)

theorem not_both (h : Waiting l refusal arrivals) (hp : l.waitingForPeer = some p) :
    p ∉ l.waitingForLayer := by
  intro hmem
  obtain ⟨n, hn⟩ := h.first (.inl (by simp [hp])) p hmem
  rw [h.peer p hp] at hn
  exact nomatch hn

theorem ne_of_mem (hsrc : refusal src = none) (h : Waiting l refusal arrivals) {q : P}
    (hq : q ∈ l.waitingForLayer ∨ l.waitingForPeer = some q) : q ≠ src := by
  rintro rfl
  exact (h.mem q).2 hq hsrc

theorem setState (h : Waiting l refusal arrivals) {state : LayerState} (hstate : state ≠ .retry) :
    Waiting { l with state := state } refusal arrivals :=
  { h with first := fun hc => h.first (.inl (hc.resolve_right hstate)) }

/-- The port refused by the component behind the layer goes first. -/
theorem unpeer (h : Waiting l refusal arrivals) (hp : l.waitingForPeer = some p)
    (hstate : l.state ≠ .retry) :
    Waiting { l with waitingForLayer := p :: l.waitingForLayer, waitingForPeer := none } refusal
      arrivals := by
  constructor
  · intro q
    rw [h.mem q, hp]
    simp [or_comm, eq_comm]
  · exact nofun
  · exact h.stamps
  · refine pairwise_cons.2 ⟨fun q hq => ?_, h.sorted⟩
    obtain ⟨n, hn⟩ := h.first (.inl (by simp [hp])) q hq
    rw [h.peer p hp, hn]
    trivial
  · intro hc
    exact absurd (hc.resolve_left (by simp)) hstate

variable [DecidableEq P]

theorem lose (h : Waiting l refusal arrivals) (hsrc : refusal src = none) :
    Waiting { l with waitingForLayer := l.waitingForLayer ++ [src] }
      (update refusal src (some (.layer arrivals))) (arrivals + 1) := by
  have hne := fun q => ne_of_mem (q := q) hsrc h
  have hold : ∀ q ∈ l.waitingForLayer,
      update refusal src (some (.layer arrivals)) q = refusal q := fun q hq =>
    update_of_ne (hne q (.inl hq)) _ _
  constructor
  · intro q
    by_cases hq : q = src
    · simp [hq]
    · simp [hq, h.mem q]
  · intro q hq
    rw [update_of_ne (hne q (.inr hq))]
    exact h.peer q hq
  · intro q n hn
    by_cases hq : q = src
    · rw [hq, update_self] at hn
      cases hn
      exact Nat.lt_succ_self _
    · rw [update_of_ne hq] at hn
      exact Nat.lt_succ_of_lt (h.stamps q n hn)
  · refine pairwise_append.2 ⟨h.sorted.imp_of_mem fun hq hq' hb => ?_, by simp, ?_⟩
    · rwa [hold _ hq, hold _ hq']
    · intro q hq q' hq'
      rw [mem_singleton.1 hq', update_self, hold q hq]
      have hsome := (h.mem q).2 (.inl hq)
      rcases hr : refusal q with _ | _ | n
      · exact absurd hr hsome
      · trivial
      · exact h.stamps q n hr
  · refine fun hc => forall_mem_append.2 ⟨fun q hq => ?_, forall_mem_singleton.2 ⟨arrivals, update_self ..⟩⟩
    rw [hold q hq]
    exact h.first hc q hq

theorem fail (h : Waiting l refusal arrivals) (hsrc : refusal src = none)
    (hnone : l.waitingForPeer = none)
    (hlayer : ∀ q ∈ l.waitingForLayer, ∃ n, refusal q = some (.layer n)) :
    Waiting { l with state := .busy, waitingForPeer := some src }
      (update refusal src (some .peer)) arrivals := by
  have hold : ∀ q ∈ l.waitingForLayer,
      update refusal src (some .peer) q = refusal q := fun q hq =>
    update_of_ne (ne_of_mem hsrc h (.inl hq)) _ _
  constructor
  · intro q
    by_cases hq : q = src
    · simp [hq]
    · have := h.mem q
      simp_all [eq_comm]
  · intro q hq
    cases hq
    exact update_self ..
  · intro q n hn
    by_cases hq : q = src
    · rw [hq, update_self] at hn
      exact nomatch hn
    · rw [update_of_ne hq] at hn
      exact h.stamps q n hn
  · refine h.sorted.imp_of_mem fun hq hq' hb => ?_
    rwa [hold _ hq, hold _ hq']
  · intro _ q hq
    rw [hold q hq]
    exact hlayer q hq

theorem pop (h : Waiting l refusal arrivals) (hl : l.waitingForLayer = p :: ps)
    (hnone : l.waitingForPeer = none) :
    Waiting { l with state := .retry, waitingForLayer := ps } (update refusal p none) arrivals := by
  have hsorted := hl ▸ h.sorted
  obtain ⟨hp, hps⟩ := pairwise_cons.1 hsorted
  have hold : ∀ q ∈ ps, update refusal p none q = refusal q := fun q hq => by
    refine update_of_ne ?_ _ _
    rintro rfl
    exact (hp q hq).ne rfl
  constructor
  · intro q
    by_cases hq : q = p
    · have hnot : p ∉ ps := fun hmem => (hp p hmem).ne rfl
      simp [hq, hnot, hnone]
    · simp [hq, h.mem q, hl]
  · intro q hq
    exact nomatch hnone.symm.trans hq
  · intro q n hn
    by_cases hq : q = p
    · rw [hq, update_self] at hn
      exact nomatch hn
    · rw [update_of_ne hq] at hn
      exact h.stamps q n hn
  · refine hps.imp_of_mem fun hq hq' hb => ?_
    rwa [hold _ hq, hold _ hq']
  · intro _ q hq
    rw [hold q hq]
    exact (hp q hq).layer

theorem kept (h : Waiting s.layer s.refusal s.arrivals) : Kept s := by
  intro p hp
  by_cases hpeer : s.layer.waitingForPeer = some p
  · exact .inl ⟨hpeer, h.not_both hpeer⟩
  · refine .inr ⟨hpeer, count_eq_one_of_mem h.nodup ?_⟩
    exact ((h.mem p).1 hp).resolve_right hpeer

end Waiting

/-! ## Steps -/

theorem taken_iff {l : Layer P} : l.taken = true ↔ l.state = .busy ∨ l.waitingForPeer ≠ none := by
  simp [Layer.taken, Option.isSome_iff_ne_none]

theorem Clocked.occupied (hstate : s.layer.state = .busy)
    (hev : s.releaseEvent = some tick) (h0 : tick ≠ 0) (hle : s.curTick ≤ tick)
    (hstart : s.retrying ≠ none → s.curTick ≠ 0) : Clocked s := by
  constructor
  · simp [hstate, hev]
  · intro r hr
    cases hev.symm.trans hr
    exact ⟨h0, hle⟩
  · simp [hstate]
  · simp [hstate]
  · simp [hstate]
  · intro h
    exact hstart (h.resolve_right (by simp [hstate]))

variable [DecidableEq P] {clockEdge : Nat → Nat} {s : State P} {src : P} {busyTime : Nat}

theorem Inv.send_lost (hi : Inv s) (hsrc : s.refusal src = none) (ht : s.layer.taken = true)
    (accepted : Bool) :
    ∃ s', step clockEdge s (.send src accepted busyTime) = .ok s' ∧ Inv s' ∧
      s'.retrying = s.retrying := by
  have hnot : src ∉ s.layer.waitingForLayer := fun hmem => hi.waiting.ne_of_mem hsrc (.inl hmem) rfl
  refine ⟨_, by simp only [step, tryTiming, Layer.tryTiming, ht, if_true, if_neg hnot, ok_bind]; rfl, ⟨hi.waiting.lose hsrc, ?_⟩, by rfl⟩
  have hc := hi.clocked
  refine ⟨hc.busy, hc.event, hc.retry, hc.idle, fun hidle _ => ?_, hc.started⟩
  -- an idle layer refuses only while it waits for the component behind it
  refine (taken_iff.1 ht).resolve_left fun hbusy => ?_
  exact nomatch hidle.symm.trans hbusy

omit [DecidableEq P] in
/-- Nobody waits at an idle layer that is not taken, and during a retry all were refused by it. -/
theorem Inv.waiting_layer (hi : Inv s) (ht : s.layer.taken = false) :
    ∀ q ∈ s.layer.waitingForLayer, ∃ n, s.refusal q = some (.layer n) := by
  have hfree := mt taken_iff.2 (Bool.eq_false_iff.1 ht)
  intro q hq
  cases hstate : s.layer.state with
  | busy => exact absurd (.inl hstate) hfree
  | retry => exact hi.waiting.first (.inr hstate) q hq
  | idle =>
    have hne := hi.clocked.wake hstate (ne_nil_of_mem hq)
    exact absurd (.inr hne) hfree

theorem Inv.send_won (hi : Inv s) (hsrc : s.refusal src = none) (ht : s.layer.taken = false)
    (h0 : busyTime ≠ 0) (hle : s.curTick ≤ busyTime) (accepted : Bool) :
    ∃ s', step clockEdge s (.send src accepted busyTime) = .ok s' ∧ Inv s' ∧
      s'.retrying = s.retrying := by
  have hfree := mt taken_iff.2 (Bool.eq_false_iff.1 ht)
  obtain ⟨hbusy, hpeer⟩ := not_or.1 hfree
  have hev : s.releaseEvent = none := not_not.1 (mt hi.clocked.busy.2 hbusy)
  have hnone : s.layer.waitingForPeer = none := not_not.1 hpeer
  have htry : s.tryTiming src = .ok ({ s.toTimedLayer with
      layer := { s.layer with state := .busy } }, true) := by
    simp [tryTiming, Layer.tryTiming, ht]
  cases accepted with
  | true =>
    refine ⟨_, bind_eq_ok.2 ⟨_, htry, bind_eq_ok.2 ⟨_, scheduleRelease_ok h0 hle hev, rfl⟩⟩, ⟨?_, ?_⟩, by rfl⟩
    · exact hi.waiting.setState (by simp)
    · exact .occupied rfl rfl h0 hle fun h => hi.clocked.started (.inl h)
  | false =>
    have hpeer' : { s.layer with state := .busy }.failedTiming src =
        .ok { s.layer with state := .busy, waitingForPeer := some src } := by
      simp [Layer.failedTiming, Layer.occupyLayer, hnone]
    refine ⟨_, bind_eq_ok.2 ⟨_, htry, bind_eq_ok.2 ⟨_, bind_eq_ok.2 ⟨_, hpeer',
      scheduleRelease_ok h0 hle hev⟩, rfl⟩⟩, ⟨?_, ?_⟩, by rfl⟩
    · exact hi.waiting.fail hsrc hnone (hi.waiting_layer ht)
    · exact .occupied rfl rfl h0 hle fun h => hi.clocked.started (.inl h)

/-- A retry goes to a port that waits, before all that wait longer. -/
def Ordered (s s' : State P) : Prop :=
  s.retrying = none → ∀ p, s'.retrying = some p →
    s.refusal p ≠ none ∧ ∀ q ∈ s'.layer.waitingForLayer, Before (s.refusal p) (s.refusal q)

theorem Inv.release (hi : Inv s) (hret : s.retrying = none)
    (hev : s.releaseEvent = some s.curTick) :
    ∃ s', step clockEdge s .release = .ok s' ∧ Inv s' ∧ Ordered s s' := by
  have hbusy : s.layer.state = .busy := hi.clocked.busy.2 (by simp [hev])
  have hstart : s.curTick ≠ 0 := (hi.clocked.event _ hev).1
  by_cases hwake : s.layer.waitingForLayer = [] ∨ s.layer.waitingForPeer ≠ none
  · have hrun := Layer.releaseLayer_idle hbusy hwake
    refine ⟨_, bind_eq_ok.2 ⟨_, bind_eq_ok.2 ⟨_, hrun, rfl⟩, rfl⟩, ⟨?_, ?_⟩, ?_⟩
    · exact hi.waiting.setState (by simp)
    · exact ⟨by simp [State.retry], nofun, nofun, fun _ => hret, fun _ hne => hwake.resolve_left hne,
        fun _ => hstart⟩
    · intro _ p hp
      exact nomatch hret.symm.trans hp
  · obtain ⟨hne, hpeer⟩ := not_or.1 hwake
    obtain ⟨p, ps, hl⟩ := exists_cons_of_ne_nil hne
    have hnone : s.layer.waitingForPeer = none := not_not.1 hpeer
    have hrun := Layer.releaseLayer_retry hbusy hl hnone
    refine ⟨_, bind_eq_ok.2 ⟨_, bind_eq_ok.2 ⟨_, hrun, rfl⟩, rfl⟩, ⟨?_, ?_⟩, ?_⟩
    · exact hi.waiting.pop hl hnone
    · exact ⟨by simp [State.retry], nofun, fun _ => ⟨by simp [State.retry], hnone⟩, nofun, nofun,
        fun _ => hstart⟩
    · intro _ p' hp'
      cases hp'
      have hsorted := hl ▸ hi.waiting.sorted
      exact ⟨(hi.waiting.mem p).2 (.inl (by simp [hl])), (pairwise_cons.1 hsorted).1⟩

theorem Inv.recvRetry (hi : Inv s) (hpeer : s.layer.waitingForPeer ≠ none) :
    ∃ s', step clockEdge s .recvRetry = .ok s' ∧ Inv s' ∧ Ordered s s' := by
  obtain ⟨p, hp⟩ := Option.ne_none_iff_exists'.1 hpeer
  have hc := hi.clocked
  cases hstate : s.layer.state with
  | retry => exact absurd (hc.retry hstate).2 hpeer
  | idle =>
    have hunpeer := hi.waiting.unpeer hp (by simp [hstate])
    have hrun := Layer.recvRetry_idle hstate hp
    refine ⟨_, bind_eq_ok.2 ⟨_, bind_eq_ok.2 ⟨_, hrun, rfl⟩, rfl⟩, ⟨hunpeer.pop rfl rfl, ?_⟩, ?_⟩
    · have hev : s.releaseEvent = none := not_not.1 (mt hc.busy.2 (by simp [hstate]))
      refine ⟨by simp [State.retry, hev], ?_, fun _ => ⟨by simp [State.retry], rfl⟩, nofun, nofun,
        fun _ => hc.started (.inr ⟨hstate, hpeer⟩)⟩
      exact fun r hr => nomatch hev.symm.trans hr
    · intro _ p' hp'
      cases hp'
      exact ⟨(hi.waiting.mem p).2 (.inr hp), (pairwise_cons.1 hunpeer.sorted).1⟩
  | busy =>
    have hrun := Layer.recvRetry_busy hstate hp
    refine ⟨_, bind_eq_ok.2 ⟨_, bind_eq_ok.2 ⟨_, hrun, rfl⟩, rfl⟩, ⟨hi.waiting.unpeer hp (by simp [hstate]), ?_⟩, ?_⟩
    · obtain ⟨r, hr⟩ := Option.ne_none_iff_exists'.1 (hc.busy.1 hstate)
      exact .occupied hstate hr (hc.event r hr).1 (hc.event r hr).2 fun h => hc.started (.inl h)
    · intro hret p' hp'
      exact nomatch hret.symm.trans hp'

theorem Inv.returned (hedge : ∀ t, t ≤ clockEdge t) (hi : Inv s) (hret : s.retrying ≠ none) :
    ∃ s', step clockEdge s .returned = .ok s' ∧ Inv s' ∧ s'.retrying = none := by
  have hc := hi.clocked
  have hstart : s.curTick ≠ 0 := hc.started (.inl hret)
  cases hstate : s.layer.state with
  | idle => exact absurd (hc.idle hstate) hret
  | busy =>
    refine ⟨{ s with retrying := none }, ?_, ⟨hi.waiting, ?_⟩, rfl⟩
    · simp [step, retryReturned, Layer.retryReturned, hstate]
    · obtain ⟨r, hr⟩ := Option.ne_none_iff_exists'.1 (hc.busy.1 hstate)
      exact .occupied hstate hr (hc.event r hr).1 (hc.event r hr).2 fun h => absurd rfl h
  | retry =>
    have hev : s.releaseEvent = none := not_not.1 (mt hc.busy.2 (by simp [hstate]))
    have hle : s.curTick ≤ clockEdge s.curTick := hedge _
    have hne : clockEdge s.curTick ≠ 0 := by omega
    simp only [step, retryReturned, Layer.retryReturned, Layer.occupyLayer, hstate, if_true, ok_bind]
    refine ⟨_, bind_eq_ok.2 ⟨_, scheduleRelease_ok hne hle hev, rfl⟩, ⟨hi.waiting.setState (by simp), ?_⟩, rfl⟩
    exact .occupied rfl rfl hne hle fun h => absurd rfl h

omit [DecidableEq P] in
theorem Inv.advance (hi : Inv s) (hle : s.curTick ≤ tick)
    (hev : ∀ r, s.releaseEvent = some r → tick ≤ r) : Inv { s with curTick := tick } := by
  have hc := hi.clocked
  refine ⟨hi.waiting, hc.busy, fun r hr => ⟨(hc.event r hr).1, hev r hr⟩, hc.retry, hc.idle, hc.wake,
    fun h => ?_⟩
  have hstart : s.curTick ≠ 0 := hc.started h
  show tick ≠ 0
  omega

omit [DecidableEq P] in
theorem Ordered.of_retrying_eq {s' : State P} (h : s'.retrying = s.retrying) : Ordered s s' := by
  intro hret p hp
  rw [h, hret] at hp
  exact nomatch hp

theorem Inv.step (hedge : ∀ t, t ≤ clockEdge t) {e : Event P} (hi : Inv s) (he : enabled s e) :
    ∃ s', step clockEdge s e = .ok s' ∧ Inv s' ∧ Ordered s s' := by
  cases e with
  | send src accepted busyTime =>
    obtain ⟨hsrc, h0, hle⟩ := he
    have hsend : ∃ s', LayerArbitration.step clockEdge s (.send src accepted busyTime) = .ok s' ∧
        Inv s' ∧ s'.retrying = s.retrying := by
      cases ht : s.layer.taken with
      | true => exact hi.send_lost hsrc ht accepted
      | false => exact hi.send_won hsrc ht h0 hle accepted
    obtain ⟨s', hs', hi', hret⟩ := hsend
    exact ⟨s', hs', hi', .of_retrying_eq hret⟩
  | release => exact hi.release he.1 he.2
  | recvRetry => exact hi.recvRetry he
  | returned =>
    obtain ⟨s', hs', hi', -⟩ := hi.returned hedge he
    refine ⟨s', hs', hi', fun hnone => absurd hnone he⟩
  | advance tick => exact ⟨_, rfl, hi.advance he.2.1 he.2.2, .of_retrying_eq rfl⟩

theorem Inv.init (h : (machine P clockEdge).init s) : Inv s := by
  obtain ⟨tick, rfl⟩ := h
  refine ⟨⟨by simp, by simp, by simp, .nil, by simp⟩, ?_⟩
  exact ⟨by simp, by simp, by simp, fun _ => rfl, by simp, by simp⟩

omit [DecidableEq P] in
theorem Inv.atRest (hi : Inv s) (hret : s.retrying = none) : AtRest s := by
  have hc := hi.clocked
  refine ⟨fun hstate => (hc.retry hstate).1 hret, fun hne => ?_⟩
  cases hstate : s.layer.state with
  | idle => exact .inr (hc.wake hstate hne)
  | busy => exact .inl ⟨rfl, hc.busy.1 hstate⟩
  | retry => exact absurd hret (hc.retry hstate).1

/-- **No port is lost.** In every run no assertion fails and every refused port
waits in one place until it is sent a retry. Between calls the layer is not in
the state of a retry, and if ports wait for it, it is busy with its release
event scheduled or waits for the component behind it. A retry goes to the port
refused by that component, if it waits for the layer, and else to the one that
came first. -/
theorem no_port_lost (P : Type) [DecidableEq P] (clockEdge : Nat → Nat)
    (hedge : ∀ t, t ≤ clockEdge t) :
    (∀ x, (machine P clockEdge).lts.Reachable x →
      ∃ s, x = .ok s ∧ Kept s ∧ (s.retrying = none → AtRest s)) ∧
    ∀ s e s', (machine P clockEdge).lts.Reachable (.ok s) → enabled s e →
      LayerArbitration.step clockEdge s e = .ok s' → Ordered s s' := by
  have hinv : ∀ {x}, (machine P clockEdge).lts.Reachable x → ∃ s, x = .ok s ∧ Inv s := fun hr =>
    Machine.total (fun s => .init) (fun s e hi he _ => by
      obtain ⟨s', hs', hi', -⟩ := hi.step hedge he
      exact ⟨s', hs', hi'⟩) (Machine.unguarded hr)
  constructor
  · intro x hr
    obtain ⟨s, rfl, hi⟩ := hinv hr
    exact ⟨s, rfl, hi.waiting.kept, hi.atRest⟩
  · intro s e s' hr he hs
    obtain ⟨_, hs₁, hi⟩ := hinv hr
    cases hs₁
    obtain ⟨s₂, hs₂, -, hord⟩ := hi.step hedge he
    cases hs.symm.trans hs₂
    exact hord

end

/-! ## One run -/

instance (s : State Nat) (e : Event Nat) : Decidable (enabled s e) :=
  match e with
  | .send _ _ _ => inferInstanceAs (Decidable (_ ∧ _ ∧ _))
  | .release => inferInstanceAs (Decidable (_ ∧ _))
  | .recvRetry => inferInstanceAs (Decidable (_ ≠ _))
  | .returned => inferInstanceAs (Decidable (_ ≠ _))
  | .advance tick =>
    match h : s.releaseEvent with
    | none => decidable_of_iff (s.retrying = none ∧ s.curTick ≤ tick) (by simp [enabled, h])
    | some r => decidable_of_iff (s.retrying = none ∧ s.curTick ≤ tick ∧ tick ≤ r)
        (by simp [enabled, h])

/-- Port 0 is refused by the component behind the layer, ports 1 and 2 by the layer; port 0 is
retried first and does not answer. -/
theorem no_port_lost_three :
    ∃ s, (machine Nat fun t => t).lts.Reachable (.ok s) ∧ s.layer.waitingForLayer = [1, 2] ∧
      s.layer.state = .busy ∧ Kept s ∧ (s.retrying = none → AtRest s) := by
  have hr := fun {y} => Machine.lts_decided (M := machine Nat fun t => t) (P := enabled) (fun _ _ => id)
    [.send 0 false 5, .send 1 true 5, .send 2 true 5, .advance 5, .recvRetry, .release, .returned]
    (y := y) ⟨0, rfl⟩
  obtain ⟨s, hs, hkept, hrest⟩ := (no_port_lost Nat (fun t => t) fun _ => Nat.le_refl _).1 _ (hr rfl)
  cases hs
  exact ⟨_, hr rfl, rfl, rfl, hkept, hrest⟩

end Gem5Cxl.L3.LayerArbitration
