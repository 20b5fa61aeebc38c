import Mathlib.Algebra.Ring.Nat
import Mathlib.Data.Finset.Card

/-!
# Partial sums over aligned blocks

A set of numbers, counted by aligned blocks of `2 ^ l` numbers: block `i` of layer
`l` is `[i * 2 ^ l, (i + 1) * 2 ^ l)`. The blocks of a layer are the halves of
those of the next, so a binary tree of counts answers how many members lie above
a given one by a walk from its leaf to the root.

* `count`, `count_succ`: a block is its two halves.
* `above`, `above_succ`: the members above `r` in its block; a layer up, the right
  half is added if `r` is in the left one.
* `above_eq`: in a block that covers the set, these are all members above `r`.
* `Covered`: every number of a block has a property.
-/
namespace Gem5Cxl.Core.BlockSums

open Finset

variable {L : Finset Nat} {l i r : Nat}

/-- The members of block `i` of layer `l`. -/
def count (L : Finset Nat) (l i : Nat) : Nat := (L.filter fun j => j / 2 ^ l = i).card

/-- The members of the block of `r` that are greater than `r`. -/
def above (L : Finset Nat) (r l : Nat) : Nat :=
  (L.filter fun j => j / 2 ^ l = r / 2 ^ l ∧ r < j).card

/-- Every number of the block has the property. -/
def Covered (G : Nat → Prop) (l i : Nat) : Prop := ∀ j, j / 2 ^ l = i → G j

theorem div_succ (j l : Nat) : j / 2 ^ (l + 1) = j / 2 ^ l / 2 := by
  rw [pow_succ, Nat.div_div_eq_div_mul]

theorem div_succ_eq_iff (j l i : Nat) :
    j / 2 ^ (l + 1) = i ↔ j / 2 ^ l = 2 * i ∨ j / 2 ^ l = 2 * i + 1 := by
  rw [div_succ]
  omega

theorem count_succ (L : Finset Nat) (l i : Nat) :
    count L (l + 1) i = count L l (2 * i) + count L l (2 * i + 1) := by
  rw [count, count, count, ← card_union_of_disjoint]
  · congr 1
    rw [← filter_or]
    exact filter_congr fun j _ => div_succ_eq_iff j l i
  · refine disjoint_filter.mpr fun j _ h => ?_
    omega

theorem covered_succ {G : Nat → Prop} :
    Covered G (l + 1) i ↔ Covered G l (2 * i) ∧ Covered G l (2 * i + 1) := by
  constructor
  · intro h
    exact ⟨fun j hj => h j ((div_succ_eq_iff j l i).mpr (.inl hj)),
      fun j hj => h j ((div_succ_eq_iff j l i).mpr (.inr hj))⟩
  · rintro ⟨hl, hr⟩ j hj
    rcases (div_succ_eq_iff j l i).mp hj with h | h
    · exact hl j h
    · exact hr j h

theorem count_zero (L : Finset Nat) (i : Nat) : count L 0 i = if i ∈ L then 1 else 0 := by
  have hsingle : (fun j => j / 2 ^ 0 = i) = fun j => j = i := by
    funext j
    rw [pow_zero, Nat.div_one]
  rw [count]
  simp only [hsingle, filter_eq']
  split
  · rfl
  · rfl

theorem above_zero (L : Finset Nat) (r : Nat) : above L r 0 = 0 := by
  rw [above, card_eq_zero, filter_eq_empty_iff]
  omega

/-- The block of `r` in the next layer has the same members above `r`, and those of the
right half if `r` is in the left one. -/
theorem above_succ (L : Finset Nat) (r l : Nat) :
    above L r (l + 1) =
      above L r l + if r / 2 ^ l % 2 = 0 then count L l (r / 2 ^ l + 1) else 0 := by
  have hmem : ∀ j, j / 2 ^ (l + 1) = r / 2 ^ (l + 1) ∧ r < j ↔
      (j / 2 ^ l = r / 2 ^ l ∧ r < j) ∨ (r / 2 ^ l % 2 = 0 ∧ j / 2 ^ l = r / 2 ^ l + 1) := by
    intro j
    rw [div_succ, div_succ]
    constructor
    · rintro ⟨hblock, hlt⟩
      have hle : r / 2 ^ l ≤ j / 2 ^ l := Nat.div_le_div_right (le_of_lt hlt)
      omega
    · rintro (⟨hsame, hlt⟩ | ⟨heven, hright⟩)
      · exact ⟨by rw [hsame], hlt⟩
      · refine ⟨by omega, Nat.lt_of_not_le fun hle => ?_⟩
        have hdiv : j / 2 ^ l ≤ r / 2 ^ l := Nat.div_le_div_right hle
        omega
  simp only [above, hmem, filter_or]
  split
  · rename_i heven
    simp only [heven, true_and]
    exact card_union_of_disjoint (disjoint_filter.mpr fun j _ h => by omega)
  · rename_i hodd
    simp [hodd]

theorem above_eq (hL : ∀ j ∈ L, j < 2 ^ l) (hr : r < 2 ^ l) :
    above L r l = (L.filter fun j => r < j).card := by
  rw [above]
  congr 1
  refine filter_congr fun j hj => ?_
  rw [Nat.div_eq_of_lt (hL j hj), Nat.div_eq_of_lt hr]
  simp

/-! ## A change of one member -/

variable {L' : Finset Nat}

theorem count_congr (h : ∀ j, j ≠ r → (j ∈ L' ↔ j ∈ L)) (hi : r / 2 ^ l ≠ i) :
    count L' l i = count L l i := by
  rw [count]
  congr 1
  ext j
  rw [mem_filter, mem_filter]
  refine and_congr_left fun hj => h j ?_
  rintro rfl
  exact hi hj

theorem count_eq_zero {n : Nat} (hL : ∀ j ∈ L, j < n) (hi : n ≤ i * 2 ^ l) : count L l i = 0 := by
  rw [count, card_eq_zero, filter_eq_empty_iff]
  intro j hj heq
  have hlow : j / 2 ^ l * 2 ^ l ≤ j := Nat.div_mul_le_self j (2 ^ l)
  rw [heq] at hlow
  have hlt := hL j hj
  omega

end Gem5Cxl.Core.BlockSums
