import Mathlib.Data.List.Basic
import Gem5Cxl.Core.Trace
import Gem5Cxl.L3Protocol.SendQueue

/-!
# A packet queue sends every packet, once and in order

`SendQueue` shows what a packet queue keeps in every run. Here: no packet waits
for ever, provided that the simulator and the peer do their part (`Fair`): the
send event fires if it is scheduled, a refusal is followed by a retry, and the
peer does not refuse every send from some point on.

A packet is only overtaken by packets for earlier ticks, and after its tick has
passed by none (`enqueue_rank`). Each send that the peer takes is at a later
tick than the one before (`Spent`), so time passes, and from then on each brings
the packet forward by one place.

* `eventually_sent`: in every fair infinite run every enqueued packet is sent.
* `in_order`: that, and what holds in every state of every run.
-/
namespace Gem5Cxl.L3.SendOrder

open Core L1 L2 L3.SendQueue List

def attempts : Event → Prop
  | .processSendEvent _ => True
  | .retry _ => True
  | _ => False

def takes : Event → Prop
  | .processSendEvent sent => sent = true
  | .retry sent => sent = true
  | _ => False

/-- What is asked of the simulator and the peer in the long run. -/
structure Fair (σ : Trace machine Finite) : Prop where
  fires : ∀ n, (σ.state n).queue.sendEvent ≠ none →
    ∃ m, n ≤ m ∧ ∃ sent, σ.label m = .processSendEvent sent
  retries : ∀ n, (σ.state n).queue.waitingOnRetry = true →
    ∃ m, n ≤ m ∧ ∃ sent, σ.label m = .retry sent
  taken : Recurs (fun n => attempts (σ.label n)) → Recurs fun n => takes (σ.label n)

/-! ## One step -/

def Change (s : State) (e : Event) (s' : State) : Prop :=
  match e with
  | .schedSendTiming _ when => s.queue.curTick ≤ when ∧ Enqueue s when s'
  | .processSendEvent sent => s.queue.sendEvent = some s.queue.curTick ∧ Attempt s sent s'
  | .retry sent => s.queue.waitingOnRetry = true ∧ Attempt s sent s'
  | .advance tick => s.queue.curTick ≤ tick ∧ s' = { s with queue := { s.queue with curTick := tick } }
  | .drain => s' = { s with queue := s.queue.drain }

variable {s s' : State} {e : Event} {dp : DeferredPacket} {c : Nat}

theorem step_change (hi : Inv s) (he : enabled s e) (hg : Finite s e)
    (hs : SendQueue.step s e = .ok s') : Change s e s' := by
  cases e with
  | schedSendTiming pkt when =>
    rcases hi.schedSendTiming he.1 he.2 hg with herr | ⟨s₁, hs₁, henq⟩
    · exact nomatch herr.symm.trans hs
    · cases hs₁.symm.trans hs
      exact ⟨he.1, henq⟩
  | processSendEvent sent =>
    obtain ⟨s₁, hs₁, ha⟩ := hi.processSendEvent he sent
    cases hs₁.symm.trans hs
    exact ⟨he, ha⟩
  | retry sent =>
    obtain ⟨s₁, hs₁, ha⟩ := hi.retry he sent
    cases hs₁.symm.trans hs
    exact ⟨he, ha⟩
  | advance tick =>
    cases hs
    exact ⟨he.1, rfl⟩
  | drain =>
    cases hs
    rfl

theorem Change.curTick_le (h : Change s e s') : s.queue.curTick ≤ s'.queue.curTick := by
  cases e with
  | schedSendTiming pkt when | processSendEvent sent | retry sent => exact h.2.curTick_eq.ge
  | advance tick =>
    obtain ⟨hle, rfl⟩ := h
    exact hle
  | drain =>
    cases h
    exact le_rfl

theorem attempt_stays {sent : Bool} (h : Attempt s sent s') (hdp : dp ∈ s.queue.transmitList)
    (hsent : dp ∉ s'.sent) : dp ∈ s'.queue.transmitList := by
  obtain ⟨d, l, hl, ⟨-, hs', hl', -⟩ | ⟨-, -, hl'⟩⟩ := h.result
  · rw [hl] at hdp
    rw [hl']
    rcases mem_cons.1 hdp with rfl | hdp
    · exact absurd (by simp [hs']) hsent
    · exact hdp
  · rw [hl', ← hl]
    exact hdp

theorem Change.stays (h : Change s e s') (hdp : dp ∈ s.queue.transmitList) (hsent : dp ∉ s'.sent) :
    dp ∈ s'.queue.transmitList := by
  cases e with
  | schedSendTiming pkt when =>
    obtain ⟨pkt', -, hl⟩ := h.2.list_eq
    rw [hl]
    exact (perm_inserted ..).mem_iff.2 (mem_cons_of_mem _ hdp)
  | processSendEvent sent | retry sent => exact attempt_stays h.2 hdp hsent
  | advance tick =>
    obtain ⟨-, rfl⟩ := h
    exact hdp
  | drain =>
    cases h
    exact hdp

/-! ## Places in the list -/

def rank (dp : DeferredPacket) (s : State) : Nat := s.queue.transmitList.idxOf dp

theorem attempt_rank_refused (h : Attempt s false s') : rank dp s' = rank dp s := by
  obtain ⟨d, l, hl, ⟨hs, -⟩ | ⟨-, -, hl'⟩⟩ := h.result
  · exact nomatch hs
  · rw [rank, rank, hl, hl']

theorem attempt_rank_taken (h : Attempt s true s') (hdp : dp ∉ s'.sent) :
    rank dp s' < rank dp s := by
  obtain ⟨d, l, hl, ⟨-, hs', hl', -⟩ | ⟨hs, -⟩⟩ := h.result
  · have hne : d ≠ dp := fun hd => hdp (by simp [hs', hd])
    rw [rank, rank, hl, hl', idxOf_cons_ne _ hne]
    exact Nat.lt_succ_self _
  · exact nomatch hs

theorem enqueue_rank {when : Nat} (h : Enqueue s when s') (hdp : dp ∈ s.queue.transmitList)
    (hle : dp.tick ≤ when) : rank dp s' = rank dp s := by
  obtain ⟨pkt, -, hl⟩ := h.list_eq
  obtain ⟨l₁, l₂, hsplit, hins, -, hafter⟩ :=
    inserted_split s.queue.forceOrder when pkt s.queue.transmitList
  have hmem : dp ∈ l₁ := by
    rw [hsplit] at hdp
    rcases mem_append.1 hdp with hdp | hdp
    · exact hdp
    · have := hafter dp hdp
      simp [PacketQueue.holdsBack, hle] at this
  rw [rank, rank, hl, hins, hsplit, idxOf_append_of_mem hmem,
    idxOf_append_of_mem hmem]

theorem Change.rank_le (h : Change s e s') (hdp : dp ∈ s.queue.transmitList)
    (hle : dp.tick ≤ s.queue.curTick) (hsent : dp ∉ s'.sent) : rank dp s' ≤ rank dp s := by
  cases e with
  | schedSendTiming pkt when => exact (enqueue_rank h.2 hdp (hle.trans h.1)).le
  | processSendEvent sent | retry sent =>
    cases sent with
    | true => exact (attempt_rank_taken h.2 hsent).le
    | false => exact (attempt_rank_refused h.2).le
  | advance tick =>
    obtain ⟨-, rfl⟩ := h
    exact le_rfl
  | drain =>
    cases h
    exact le_rfl

theorem Change.rank_lt (h : Change s e s') (he : takes e) (hsent : dp ∉ s'.sent) :
    rank dp s' < rank dp s := by
  cases e with
  | processSendEvent sent | retry sent =>
    cases he
    exact attempt_rank_taken h.2 hsent
  | schedSendTiming pkt when | advance tick | drain => exact he.elim

/-! ## Time -/

/-- Nothing can be sent at the current tick. -/
def Spent (s : State) : Prop :=
  s.queue.waitingOnRetry = false ∧ ∀ t, s.queue.sendEvent = some t → s.queue.curTick < t

theorem attempt_spent (h : Attempt s true s') : Spent s' := by
  obtain ⟨d, l, -, ⟨-, -, -, hw, hev⟩ | ⟨hs, -⟩⟩ := h.result
  · refine ⟨hw, fun t ht => ?_⟩
    rw [h.curTick_eq]
    exact hev t ht
  · exact nomatch hs

/-- After a send that was taken at tick `c`, until a later tick. -/
def SpentAt (c : Nat) (s : State) : Prop := c < s.queue.curTick ∨ s.queue.curTick = c ∧ Spent s

theorem Change.spentAt (h : Change s e s') (hc : SpentAt c s) : SpentAt c s' := by
  have hle := h.curTick_le
  rcases hc with hlt | ⟨rfl, hw, hev⟩
  · exact .inl (by omega)
  · by_cases heq : s'.queue.curTick = s.queue.curTick
    · refine .inr ⟨heq, ?_⟩
      cases e with
      | schedSendTiming pkt when =>
        refine ⟨h.2.waiting_eq.trans hw, fun t ht => ?_⟩
        rw [heq]
        exact (h.2.event t ht).elim (hev t) id
      | processSendEvent sent => exact absurd (hev _ h.1) (lt_irrefl _)
      | retry sent => exact nomatch hw.symm.trans h.1
      | advance tick =>
        obtain ⟨-, rfl⟩ := h
        refine ⟨hw, fun t ht => ?_⟩
        rw [heq]
        exact hev t ht
      | drain =>
        cases h
        exact ⟨hw, hev⟩
    · exact .inl (by omega)

theorem Change.attempt_later (h : Change s e s') (he : attempts e) (hc : SpentAt c s) :
    c < s.queue.curTick := by
  rcases hc with hlt | ⟨rfl, hw, hev⟩
  · exact hlt
  · cases e with
    | processSendEvent sent => exact hev _ h.1
    | retry sent => exact nomatch hw.symm.trans h.1
    | schedSendTiming pkt when | advance tick | drain => exact he.elim

theorem Change.spentAt_taken (h : Change s e s') (he : takes e) : SpentAt s.queue.curTick s' := by
  cases e with
  | processSendEvent sent | retry sent =>
    cases he
    exact .inr ⟨h.2.curTick_eq, attempt_spent h.2⟩
  | schedSendTiming pkt when | advance tick | drain => exact he.elim

/-! ## Infinite runs -/

section

variable {σ : Trace machine Finite} {m n : Nat}

theorem trace_inv (σ : Trace machine Finite) (n : Nat) : Inv (σ.state n) := by
  obtain ⟨s, hs, hi⟩ := (reachable_inv (σ.reachable n)).resolve_left nofun
  cases hs
  exact hi

theorem trace_change (σ : Trace machine Finite) (n : Nat) :
    Change (σ.state n) (σ.label n) (σ.state (n + 1)) :=
  step_change (trace_inv σ n) (σ.enabled n) (σ.guard n) (σ.step n)

theorem curTick_mono (σ : Trace machine Finite) (h : n ≤ m) :
    (σ.state n).queue.curTick ≤ (σ.state m).queue.curTick :=
  σ.keeps (p := fun s => (σ.state n).queue.curTick ≤ s.queue.curTick)
    (fun k hk => hk.trans (trace_change σ k).curTick_le) le_rfl h

theorem attempts_recur (hf : Fair σ) {n₀ : Nat}
    (hne : ∀ n, n₀ ≤ n → (σ.state n).queue.transmitList ≠ []) :
    Recurs fun n => attempts (σ.label n) := by
  intro n
  have hn : n₀ ≤ max n n₀ := le_max_right _ _
  obtain ⟨dp, l, hl⟩ := exists_cons_of_ne_nil (hne _ hn)
  cases hw : (σ.state (max n n₀)).queue.waitingOnRetry with
  | true =>
    obtain ⟨m, hm, sent, hlabel⟩ := hf.retries _ hw
    refine ⟨m, (le_max_left _ _).trans hm, ?_⟩
    show attempts (σ.label m)
    rw [hlabel]
    trivial
  | false =>
    obtain ⟨t, ht, -⟩ := (trace_inv σ (max n n₀)).wakes hw dp (by simp [hl])
    obtain ⟨m, hm, sent, hlabel⟩ := hf.fires (max n n₀) (by simp [ht])
    refine ⟨m, (le_max_left _ _).trans hm, ?_⟩
    show attempts (σ.label m)
    rw [hlabel]
    trivial

theorem attempts_of_takes (h : takes e) : attempts e := by
  cases e <;> trivial

theorem time_passes (htake : Recurs fun n => takes (σ.label n)) (k : Nat) :
    ∃ n, k ≤ (σ.state n).queue.curTick := by
  refine unbounded (fun n => ?_) k
  obtain ⟨m, hm, htake₁⟩ := htake n
  obtain ⟨m', hm', htake₂⟩ := htake (m + 1)
  have hspent : SpentAt (σ.state m).queue.curTick (σ.state m') :=
    σ.keeps (fun k hk => (trace_change σ k).spentAt hk) ((trace_change σ m).spentAt_taken htake₁) hm'
  have hlater := (trace_change σ m').attempt_later (attempts_of_takes htake₂) hspent
  exact ⟨m', (curTick_mono σ hm).trans_lt hlater⟩

theorem stays_forever (hdp : dp ∈ (σ.state n).queue.transmitList)
    (hnever : ∀ m, dp ∉ (σ.state m).sent) (hm : n ≤ m) :
    dp ∈ (σ.state m).queue.transmitList :=
  σ.keeps (p := fun s => dp ∈ s.queue.transmitList)
    (fun k hk => (trace_change σ k).stays hk (hnever _)) hdp hm

theorem listed_sent (hf : Fair σ) (hdp : dp ∈ (σ.state n).queue.transmitList) :
    ∃ m, dp ∈ (σ.state m).sent := by
  by_contra hnone
  have hnever : ∀ m, dp ∉ (σ.state m).sent := fun m hm => hnone ⟨m, hm⟩
  have hstays := fun m (hm : n ≤ m) => stays_forever hdp hnever hm
  have htakes := hf.taken (attempts_recur hf fun m hm => ne_nil_of_mem (hstays m hm))
  obtain ⟨n₁, hn₁⟩ := time_passes htakes dp.tick
  -- from here on the packet is in the list and its tick has passed
  have htick : ∀ m, max n n₁ ≤ m → dp.tick ≤ (σ.state m).queue.curTick := fun m hm =>
    hn₁.trans (curTick_mono σ (by omega))
  refine not_descending (f := fun m => rank dp (σ.state m)) (max n n₁) ?_ ?_
  · intro m hm
    exact (trace_change σ m).rank_le (hstays m (by omega)) (htick m hm) (hnever _)
  · intro m _
    obtain ⟨m', hm', htake⟩ := htakes m
    exact ⟨m', hm', (trace_change σ m').rank_lt htake (hnever _)⟩

/-- **Every packet is sent.** -/
theorem eventually_sent (hf : Fair σ) {i : Nat} (hi : i < (σ.state n).enqueued) :
    ∃ m, i ∈ (σ.state m).sent.map fun dp => dp.pkt.id := by
  have hmem := (trace_inv σ n).once.mem_iff.2 (mem_range.2 hi)
  obtain ⟨dp, hdp, rfl⟩ := mem_map.1 hmem
  rcases mem_append.1 hdp with hdp | hdp
  · exact ⟨n, mem_map.2 ⟨dp, hdp, rfl⟩⟩
  · obtain ⟨m, hm⟩ := listed_sent hf hdp
    exact ⟨m, mem_map.2 ⟨dp, hm, rfl⟩⟩

end

/-- **Packets are sent once and in order.** In every run that enqueues no packet
for `MaxTick` no assertion fails, and every state reached is as `Kept` says,
until the queue grows too long. In every infinite such run that is fair, every
enqueued packet is sent in the end. -/
theorem in_order :
    (∀ x, (machine.under Finite).Reachable x →
      x = .error sanityPanic ∨ ∃ s, x = .ok s ∧ Kept s) ∧
    ∀ σ : Trace machine Finite, Fair σ → ∀ n i, i < (σ.state n).enqueued →
      ∃ m, i ∈ (σ.state m).sent.map fun dp => dp.pkt.id := by
  refine ⟨fun x hr => ?_, fun σ hf n i hi => eventually_sent hf hi⟩
  exact (reachable_inv hr).imp_right fun ⟨s, hs, hi⟩ => ⟨s, hs, hi.toKept⟩

/-! ## Two packets -/

def first : DeferredPacket := ⟨2, read 0⟩

/-- To the same address, and due before it. -/
def second : DeferredPacket := ⟨1, { read 0 with id := 1 }⟩

/-- A queue that keeps the order of matching packets. The first is refused once and sent on the
retry, the second at the next tick; then nothing happens any more. -/
def twoPackets : Trace machine Finite where
  state
    | 0 => { empty with queue := { forceOrder := true } }
    | 1 => ⟨{ forceOrder := true, transmitList := [first], sendEvent := some 2 }, 1, []⟩
    | 2 => ⟨{ forceOrder := true, transmitList := [first, second], sendEvent := some 2 }, 2, []⟩
    | 3 =>
      ⟨{ forceOrder := true, transmitList := [first, second], sendEvent := some 2, curTick := 2 },
        2, []⟩
    | 4 =>
      ⟨{ forceOrder := true, transmitList := [first, second], waitingOnRetry := true, curTick := 2 },
        2, []⟩
    | 5 =>
      ⟨{ forceOrder := true, transmitList := [second], sendEvent := some 3, curTick := 2 }, 2,
        [first]⟩
    | 6 =>
      ⟨{ forceOrder := true, transmitList := [second], sendEvent := some 3, curTick := 3 }, 2,
        [first]⟩
    | _ + 7 => ⟨{ forceOrder := true, curTick := 3 }, 2, [first, second]⟩
  label
    | 0 => .schedSendTiming (read 0) 2
    | 1 => .schedSendTiming (read 0) 1
    | 2 => .advance 2
    | 3 => .processSendEvent false
    | 4 => .retry true
    | 5 => .advance 3
    | 6 => .processSendEvent true
    | _ + 7 => .drain
  init := ⟨true, false, 0, rfl⟩
  enabled
    | 0 | 1 => ⟨Nat.zero_le _, rfl⟩
    | 2 | 5 => ⟨by decide, fun t ht => by cases ht; exact Nat.le_refl _⟩
    | 3 | 4 | 6 => rfl
    | _ + 7 => trivial
  guard
    | 0 => (by decide : 2 ≠ maxTick)
    | 1 => (by decide : 1 ≠ maxTick)
    | 2 | 3 | 4 | 5 | 6 | _ + 7 => trivial
  step
    | 0 | 1 | 2 | 3 | 4 | 5 | 6 | _ + 7 => rfl

theorem twoPackets_fair : Fair twoPackets := by
  refine ⟨fun n hev => ?_, fun n hw => ?_, fun hrec => ?_⟩
  · match n with
    | 0 | 1 | 2 | 3 | 4 | 5 | 6 => exact ⟨6, by omega, true, rfl⟩
    | _ + 7 => exact absurd rfl hev
  · match n with
    | 0 | 1 | 2 | 3 | 4 => exact ⟨4, by omega, true, rfl⟩
    | 5 | 6 | _ + 7 => exact nomatch hw
  · obtain ⟨m, hm, hatt⟩ := hrec 7
    match m with
    | 0 | 1 | 2 | 3 | 4 | 5 | 6 => omega
    | _ + 7 => exact hatt.elim

theorem in_order_twoPackets :
    ((machine.under Finite).Reachable (.ok (twoPackets.state 4)) ∧
      ((Except.ok (twoPackets.state 4) = (.error sanityPanic : Except Fault State)) ∨
        ∃ s, Except.ok (twoPackets.state 4) = (.ok s : Except Fault State) ∧ Kept s)) ∧
    Fair twoPackets ∧ ∀ i, i < 2 → ∃ m, i ∈ (twoPackets.state m).sent.map fun dp => dp.pkt.id :=
  ⟨⟨twoPackets.reachable 4, in_order.1 _ (twoPackets.reachable 4)⟩, twoPackets_fair,
    in_order.2 twoPackets twoPackets_fair 2⟩

end Gem5Cxl.L3.SendOrder
