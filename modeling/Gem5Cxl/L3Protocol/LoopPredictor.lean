import Mathlib.Data.List.Basic
import Gem5Cxl.L2Machine.LoopPredictor

/-!
# The speculative counters of the loop predictor

* `squash_restores_iff`: predictions that are squashed youngest first leave every counter as it was
  exactly if the counters they hit were zero.
* `squash_clears`: one prediction and its squash clear a counter.
-/
namespace Gem5Cxl.L3.LoopPredictor

open L2.LoopPredictor

/-- A prediction: the branch's address, what was predicted before, and the shift. -/
abbrev Prediction := Nat × Bool × Nat

variable (p : Params) (loopUseCounter : Int) (ltable : Nat → LoopEntry)

/-- The records of the predictions, oldest first, and the table after them. -/
def predictAll (ltable : Nat → LoopEntry) : List Prediction → List BranchInfo × (Nat → LoopEntry)
  | [] => ([], ltable)
  | (pc, taken, shift) :: preds =>
    let (bi, ltable) := loopPredict p loopUseCounter ltable pc taken shift
    let (bis, ltable) := predictAll ltable preds
    (bi :: bis, ltable)

def predictSquash (preds : List Prediction) : Nat → LoopEntry :=
  let (bis, ltable) := predictAll p loopUseCounter ltable preds
  bis.foldr (fun bi ltable => squash p ltable bi) ltable

/-- **Squashes clear counters.** -/
theorem squash_clears :
    let p : Params := ⟨0, 2, 4, 4, 0, false, false⟩
    (predictSquash p 0 (fun _ => { numIter := 9, currentIterSpec := 5 })
      [(0, true, 0)] 0).currentIterSpec = 0 := by
  decide

theorem setSpec_spec (bi : BranchInfo) (f : LoopEntry → Nat) (idx : Nat) :
    (setSpec p ltable bi f idx).currentIterSpec =
      if bi.idx p = some idx then f (ltable idx) else (ltable idx).currentIterSpec := by
  unfold setSpec
  cases hidx : bi.idx p with
  | none => simp
  | some i =>
    dsimp only
    rw [Function.update_apply]
    by_cases h : idx = i
    · simp [h]
    · simp [h, Ne.symm h]

theorem getLoop_currentIter (pc : Nat) (bi : BranchInfo) (shift : Nat) :
    (getLoop p ltable pc bi shift).currentIter = bi.currentIter := by
  unfold getLoop
  dsimp only
  split <;> rfl

theorem predictSquash_spec (preds : List Prediction) (idx : Nat) :
    (predictSquash p loopUseCounter ltable preds idx).currentIterSpec =
      if ∃ bi ∈ (predictAll p loopUseCounter ltable preds).1, bi.idx p = some idx then 0
      else (ltable idx).currentIterSpec := by
  induction preds generalizing ltable with
  | nil => simp [predictSquash, predictAll]
  | cons pred preds ih =>
    obtain ⟨pc, taken, shift⟩ := pred
    simp only [predictSquash, predictAll, List.foldr_cons, squash, setSpec_spec] at ih ⊢
    rw [ih]
    simp only [loopPredict, getLoop_currentIter, specLoopUpdate, setSpec_spec,
      List.exists_mem_cons_iff]
    split <;> simp_all

/-- **Squashing restores zero counters only.** -/
theorem squash_restores_iff (preds : List Prediction) :
    (∀ idx, (predictSquash p loopUseCounter ltable preds idx).currentIterSpec =
        (ltable idx).currentIterSpec) ↔
      ∀ bi ∈ (predictAll p loopUseCounter ltable preds).1, ∀ idx, bi.idx p = some idx →
        (ltable idx).currentIterSpec = 0 := by
  simp only [predictSquash_spec]
  constructor
  · intro h bi hbi idx hidx
    rw [← h idx, if_pos ⟨bi, hbi, hidx⟩]
  · intro h idx
    split
    · rename_i hhit
      obtain ⟨bi, hbi, hidx⟩ := hhit
      exact (h bi hbi idx hidx).symm
    · rfl

end Gem5Cxl.L3.LoopPredictor
