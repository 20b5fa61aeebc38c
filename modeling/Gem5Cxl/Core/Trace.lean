import Gem5Cxl.Core.Lts

/-!
# Infinite runs

A `Trace` of a machine is a run that never ends and never faults. What happens
in it in the end is shown by numbers read off its states: one that never goes up
cannot go down for ever (`not_descending`), and one that is
always passed again passes every bound (`unbounded`).
-/
namespace Gem5Cxl.Core

/-- From every point on, `p` holds again. -/
def Recurs (p : Nat → Prop) : Prop := ∀ n, ∃ m, n ≤ m ∧ p m

theorem not_descending {f : Nat → Nat} (n₀ : Nat) (hle : ∀ n, n₀ ≤ n → f (n + 1) ≤ f n)
    (hlt : ∀ n, n₀ ≤ n → ∃ m, n ≤ m ∧ f (m + 1) < f m) : False := by
  -- below every value there is another one, by induction on the value
  have hmono : ∀ {n m}, n₀ ≤ n → n ≤ m → f m ≤ f n := by
    intro n m hn hm
    induction hm with
    | refl => exact Nat.le_refl _
    | step hm ih => exact Nat.le_trans (hle _ (Nat.le_trans hn hm)) ih
  have hno : ∀ k n, n₀ ≤ n → f n = k → False := by
    intro k
    induction k using Nat.strongRecOn with
    | ind k ih =>
      intro n hn hk
      obtain ⟨m, hm, hd⟩ := hlt n hn
      have hle' := hmono hn hm
      exact ih (f (m + 1)) (by omega) (m + 1) (by omega) rfl
  exact hno _ n₀ (Nat.le_refl _) rfl

theorem unbounded {f : Nat → Nat} (hlt : ∀ n, ∃ m, f n < f m) (k : Nat) : ∃ n, k ≤ f n := by
  induction k with
  | zero => exact ⟨0, Nat.zero_le _⟩
  | succ k ih =>
    obtain ⟨n, hk⟩ := ih
    obtain ⟨m, hm⟩ := hlt n
    exact ⟨m, by omega⟩

structure Trace {S L E : Type} (M : Machine S L E) (G : S → L → Prop) where
  state : Nat → S
  label : Nat → L
  init : M.init (state 0)
  enabled : ∀ n, M.enabled (state n) (label n)
  guard : ∀ n, G (state n) (label n)
  step : ∀ n, M.step (state n) (label n) = .ok (state (n + 1))

namespace Trace

variable {S L E : Type} {M : Machine S L E} {G : S → L → Prop} (σ : Trace M G)

theorem reachable (n : Nat) : (M.under G).Reachable (.ok (σ.state n)) := by
  induction n with
  | zero => exact Machine.under_init σ.init
  | succ n ih => exact Machine.under_step (σ.label n) ih (σ.enabled n) (σ.guard n) (σ.step n)

/-- What every step keeps is kept from a point on. -/
theorem keeps {p : S → Prop} (hstep : ∀ n, p (σ.state n) → p (σ.state (n + 1))) {n m : Nat}
    (hn : p (σ.state n)) (hm : n ≤ m) : p (σ.state m) := by
  induction hm with
  | refl => exact hn
  | step _ ih => exact hstep _ ih

end Trace

end Gem5Cxl.Core
