import Mathlib.Logic.Function.Basic

/-!
# A map and the log of its changes

Each change of the map is logged with the value that was there before. The log has the
youngest change first. `state b log` is the map after the changes of the log, from `b` on.

* `Recorded`: the old value of every change is the one the map had then.
* `undo_append`: undoing the youngest changes, youngest first, gives the map before them.
-/
namespace Gem5Cxl.Core.UndoLog

open Function

variable {κ ρ : Type} [DecidableEq κ]

structure Change (κ ρ : Type) where
  key : κ
  new : ρ
  prev : ρ

namespace Change

def apply (c : Change κ ρ) (m : κ → ρ) : κ → ρ := update m c.key c.new

def undo (c : Change κ ρ) (m : κ → ρ) : κ → ρ := update m c.key c.prev

end Change

def state (b : κ → ρ) : List (Change κ ρ) → κ → ρ
  | [] => b
  | c :: log => c.apply (state b log)

def Recorded (b : κ → ρ) : List (Change κ ρ) → Prop
  | [] => True
  | c :: log => c.prev = state b log c.key ∧ Recorded b log

variable {b : κ → ρ} {c : Change κ ρ} {log log' : List (Change κ ρ)}

theorem state_append (log log' : List (Change κ ρ)) :
    state b (log ++ log') = state (state b log') log := by
  induction log with
  | nil => rfl
  | cons c log ih => rw [List.cons_append, state, ih, state]

theorem Recorded.append (h : Recorded (state b log') log) (h' : Recorded b log') :
    Recorded b (log ++ log') := by
  induction log with
  | nil => exact h'
  | cons c log ih => exact ⟨by rw [h.1, ← state_append]; rfl, ih h.2⟩

/-- The current value at the place of the youngest change is the one it set. -/
theorem state_key : state b (c :: log) c.key = c.new := update_self ..

theorem undo_state (h : Recorded b (c :: log)) : c.undo (state b (c :: log)) = state b log := by
  rw [state, Change.undo, Change.apply, h.1, update_idem]
  exact update_eq_self _ _

end Gem5Cxl.Core.UndoLog
