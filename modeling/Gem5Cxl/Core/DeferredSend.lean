import Mathlib.Data.List.Basic

/-!
# A queue whose head is sent by an event or after a retry

A port holds packets, each with the tick at which it may go. It has one send event; a
peer that refuses the first packet calls back later. `Waiting` says that the first packet
is not forgotten and not sent early: if the queue is not empty, the event is scheduled or
the peer owes a retry; the event is never before the first packet's tick; and while a retry
is owed the first packet is due. `Served` adds that there is no event while a retry is owed.

`ticks` are those of the packets, first packet first.
-/
namespace Gem5Cxl.Core.DeferredSend

structure Waiting (ticks : List Nat) (event : Option Nat) (refused : Bool) (now : Nat) : Prop where
  waits : ticks ≠ [] → event ≠ none ∨ refused = true
  event_due : ∀ w, event = some w → now ≤ w ∧ ∃ t ts, ticks = t :: ts ∧ t ≤ w
  refused_due : refused = true → ∃ t ts, ticks = t :: ts ∧ t ≤ now

structure Served (ticks : List Nat) (event : Option Nat) (refused : Bool) (now : Nat) : Prop
    extends Waiting ticks event refused now where
  exclusive : refused = true → event = none

variable {ticks ts ts' : List Nat} {event : Option Nat} {refused : Bool} {now t w : Nat}
  {now' : Nat}

/-! ## Waiting -/

theorem waiting_nil (now : Nat) : Waiting [] none false now :=
  ⟨absurd rfl, nofun, nofun⟩

theorem waiting_event (hnow : now ≤ w) (ht : t ≤ w) : Waiting (t :: ts) (some w) false now := by
  refine ⟨fun _ => .inl (by simp), fun w' hw' => ?_, nofun⟩
  cases hw'
  exact ⟨hnow, t, ts, rfl, ht⟩

theorem waiting_refused (ht : t ≤ now) (hev : ∀ w, event = some w → now ≤ w) :
    Waiting (t :: ts) event true now := by
  refine ⟨fun _ => .inr rfl, fun w hw => ?_, fun _ => ⟨t, ts, rfl, ht⟩⟩
  have hle : now ≤ w := hev w hw
  exact ⟨hle, t, ts, rfl, Nat.le_trans ht hle⟩

theorem Waiting.behind (h : Waiting (t :: ts) event refused now) :
    Waiting (t :: ts') event refused now := by
  refine ⟨fun _ => h.waits (by simp), fun w hw => ?_, fun hr => ?_⟩
  · obtain ⟨hle, t', ts₁, heq, ht⟩ := h.event_due w hw
    cases heq
    exact ⟨hle, t, ts', rfl, ht⟩
  · obtain ⟨t', ts₁, heq, ht⟩ := h.refused_due hr
    cases heq
    exact ⟨t, ts', rfl, ht⟩

theorem Waiting.event_nil (h : Waiting [] event refused now) : event = none ∧ refused = false := by
  constructor
  · cases hev : event with
    | none => rfl
    | some w =>
      obtain ⟨-, t, ts, heq, -⟩ := h.event_due w hev
      cases heq
  · cases hr : refused with
    | false => rfl
    | true =>
      obtain ⟨t, ts, heq, -⟩ := h.refused_due hr
      cases heq

theorem Waiting.tick (h : Waiting ticks event refused now) (hle : now ≤ now')
    (hev : ∀ w, event = some w → now' ≤ w) : Waiting ticks event refused now' := by
  refine ⟨h.waits, fun w hw => ?_, fun hr => ?_⟩
  · exact ⟨hev w hw, (h.event_due w hw).2⟩
  · obtain ⟨t, ts, heq, ht⟩ := h.refused_due hr
    exact ⟨t, ts, heq, Nat.le_trans ht hle⟩

/-- When the event fires, or the retry comes, the first packet is due. -/
theorem Waiting.due (h : Waiting ticks event refused now)
    (hfire : event = some now ∨ refused = true) :
    ∃ t ts, ticks = t :: ts ∧ t ≤ now := by
  rcases hfire with hev | hr
  · exact (h.event_due now hev).2
  · exact h.refused_due hr

/-! ## Served -/

theorem served_nil (now : Nat) : Served [] none false now := ⟨waiting_nil now, fun _ => rfl⟩

theorem served_event (hnow : now ≤ w) (ht : t ≤ w) : Served (t :: ts) (some w) false now :=
  ⟨waiting_event hnow ht, nofun⟩

theorem served_refused (ht : t ≤ now) : Served (t :: ts) none true now :=
  ⟨waiting_refused ht nofun, fun _ => rfl⟩

theorem Served.behind (h : Served (t :: ts) event refused now) :
    Served (t :: ts') event refused now :=
  ⟨h.toWaiting.behind, h.exclusive⟩

theorem Served.tick (h : Served ticks event refused now) (hle : now ≤ now')
    (hev : ∀ w, event = some w → now' ≤ w) : Served ticks event refused now' :=
  ⟨h.toWaiting.tick hle hev, h.exclusive⟩

end Gem5Cxl.Core.DeferredSend
