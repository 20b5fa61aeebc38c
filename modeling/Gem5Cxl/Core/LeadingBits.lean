import Mathlib.Logic.Basic

/-!
# Words by their leading bits

A prefix of a word is kept as the word and the number of bits that count, from
the most significant one. Code compares prefixes under a mask.

* `leadMask`: the mask of the `w` leading bits.
* `Agree`: two words have the same `w` leading bits.
* `and_leadMask_eq`: the masked comparison decides it.
-/
namespace Gem5Cxl.Core

open BitVec

variable {n : Nat} {v : Nat}

/-- The mask that keeps the `w` leading bits. -/
def leadMask (n w : Nat) : BitVec n := BitVec.allOnes n <<< (n - w)

/-- The first `w` bits are the same. -/
def Agree (w : Nat) (x y : BitVec n) : Prop := ∀ i < w, x.getMsbD i = y.getMsbD i

instance (w : Nat) (x y : BitVec n) : Decidable (Agree w x y) :=
  inferInstanceAs (Decidable (∀ i < w, x.getMsbD i = y.getMsbD i))

variable {w : Nat}

theorem getMsbD_leadMask {i : Nat} (hw : w ≤ n) : (leadMask n w).getMsbD i = decide (i < w) := by
  rw [leadMask, getMsbD_shiftLeft, getMsbD_allOnes, decide_eq_decide]
  omega

namespace Agree

variable {w v : Nat} {x y z : BitVec n}

theorem refl (w : Nat) (x : BitVec n) : Agree w x x := fun _ _ => rfl

theorem symm (h : Agree w x y) : Agree w y x := fun i hi => (h i hi).symm

theorem trans (h : Agree w x y) (h' : Agree w y z) : Agree w x z :=
  fun i hi => (h i hi).trans (h' i hi)

theorem mono (h : Agree w x y) (hv : v ≤ w) : Agree v x y :=
  fun i hi => h i (Nat.lt_of_lt_of_le hi hv)

theorem zero (x y : BitVec n) : Agree 0 x y := fun _ hi => absurd hi (Nat.not_lt_zero _)

theorem succ_iff : Agree (w + 1) x y ↔ Agree w x y ∧ x.getMsbD w = y.getMsbD w := by
  refine ⟨fun h => ⟨h.mono (Nat.le_succ w), h w (Nat.lt_succ_self w)⟩, fun h i hi => ?_⟩
  rcases Nat.lt_succ_iff_lt_or_eq.1 hi with hlt | rfl
  · exact h.1 i hlt
  · exact h.2

end Agree

theorem and_leadMask_eq (hw : w ≤ n) {x y : BitVec n} :
    x &&& leadMask n w = y &&& leadMask n w ↔ Agree w x y := by
  constructor
  · intro h i hi
    have hbit : (x &&& leadMask n w).getMsbD i = (y &&& leadMask n w).getMsbD i := by rw [h]
    simpa [getMsbD_and, getMsbD_leadMask hw, hi] using hbit
  · intro h
    refine eq_of_getMsbD_eq fun i _ => ?_
    rw [getMsbD_and, getMsbD_and, getMsbD_leadMask hw]
    by_cases hi : i < w
    · rw [h i hi]
    · simp [hi]

theorem agree_and_leadMask (hw : w ≤ n) (x : BitVec n) : Agree w (x &&& leadMask n w) x := by
  intro i hi
  simp [getMsbD_and, getMsbD_leadMask hw, hi]

theorem leadMask_and_eq (hv : v ≤ n) (hw : w ≤ n) :
    leadMask n v &&& leadMask n w = leadMask n v ↔ v ≤ w := by
  constructor
  · intro h
    refine Nat.le_of_not_lt fun hlt => ?_
    have hbit : (leadMask n v &&& leadMask n w).getMsbD w = (leadMask n v).getMsbD w := by rw [h]
    simp [getMsbD_and, getMsbD_leadMask hv, getMsbD_leadMask hw, hlt] at hbit
  · intro h
    refine eq_of_getMsbD_eq fun i _ => ?_
    rw [getMsbD_and, getMsbD_leadMask hv, getMsbD_leadMask hw, ← Bool.decide_and,
      decide_eq_decide]
    omega

theorem leadMask_inj (hv : v ≤ n) (hw : w ≤ n) : leadMask n v = leadMask n w ↔ v = w := by
  constructor
  · intro h
    have hvw : v ≤ w := (leadMask_and_eq hv hw).1 (by rw [h, BitVec.and_self])
    have hwv : w ≤ v := (leadMask_and_eq hw hv).1 (by rw [h, BitVec.and_self])
    omega
  · rintro rfl
    rfl

end Gem5Cxl.Core
