import Mathlib.Algebra.Ring.Nat

/-!
# Words split into equal parts

A word of `w` bits as a list of parts of `m` bits each, lowest part first. The same
functions split a word into bytes, a block's words into chunks and a repeated value
into its copies.

* `parts`, `join`: a word to `k` parts by repeated shifts, and back.
* `join_parts`, `parts_join`: the two are inverse if the parts fill the word.
* `part`: part `j`, taken out by one shift; `getElem?_parts` says it is the same.
* `overlay_part`: the parts laid over each other at their places are the word.
-/
namespace Gem5Cxl.Core.WordParts

open BitVec List

variable {w m k : Nat} (v : BitVec w)

/-- Part `j` of a word. -/
def part (m : Nat) (v : BitVec w) (j : Nat) : BitVec m := (v >>> (m * j)).setWidth m

/-- The `k` lowest parts of a word. -/
def parts (m : Nat) : Nat → BitVec w → List (BitVec m)
  | 0, _ => []
  | k + 1, v => v.setWidth m :: parts m k (v >>> m)

/-- The word of a list of parts. -/
def join (w : Nat) : List (BitVec m) → BitVec w
  | [] => 0#w
  | b :: bs => join w bs <<< m ||| b.setWidth w

theorem getLsbD_part (j i : Nat) :
    (part m v j).getLsbD i = (decide (i < m) && v.getLsbD (m * j + i)) := by
  rw [part, getLsbD_setWidth, getLsbD_ushiftRight]

@[simp] theorem length_parts (k : Nat) (v : BitVec w) : (parts m k v).length = k := by
  induction k generalizing v with
  | zero => rfl
  | succ k ih => rw [parts, length_cons, ih]

theorem part_shift (j : Nat) : part m (v >>> m) j = part m v (j + 1) := by
  rw [part, part, ← shiftRight_add, Nat.mul_succ, add_comm]

theorem getElem?_parts {j : Nat} (hj : j < k) : (parts m k v)[j]? = some (part m v j) := by
  induction k generalizing v j with
  | zero => exact absurd hj (Nat.not_lt_zero j)
  | succ k ih =>
    cases j with
    | zero => rw [parts, getElem?_cons_zero, part, Nat.mul_zero, ushiftRight_zero]
    | succ j => rw [parts, getElem?_cons_succ, ih (v >>> m) (Nat.lt_of_succ_lt_succ hj), part_shift]

theorem getLsbD_join (hm : 0 < m) (bs : List (BitVec m)) (i : Nat) :
    (join w bs).getLsbD i = (decide (i < w) && (bs.getD (i / m) 0#m).getLsbD (i % m)) := by
  induction bs generalizing i with
  | nil => simp [join]
  | cons b bs ih =>
    rw [join, getLsbD_or, getLsbD_shiftLeft, getLsbD_setWidth, ih]
    by_cases hi : i < m
    · simp [hi, Nat.div_eq_of_lt hi, Nat.mod_eq_of_lt hi]
    · have hle : m ≤ i := Nat.le_of_not_lt hi
      rw [getLsbD_of_ge b i hle, Nat.div_eq_sub_div hm hle, Nat.mod_eq_sub_mod hle]
      by_cases hw : i < w
      · have hw' : i - m < w := lt_of_le_of_lt (Nat.sub_le i m) hw
        simp [hi, hw, hw']
      · simp [hw]

/-- **A word is its parts.** -/
theorem join_parts (hm : 0 < m) (hw : w ≤ m * k) (v : BitVec w) : join w (parts m k v) = v := by
  refine eq_of_getLsbD_eq fun i hi => ?_
  have hj : i / m < k := Nat.div_lt_of_lt_mul (lt_of_lt_of_le hi hw)
  rw [getLsbD_join hm, getD_eq_getElem?_getD, getElem?_parts v hj, Option.getD_some, getLsbD_part,
    Nat.div_add_mod]
  simp [hi, Nat.mod_lt i hm]

/-- **Parts that fit in a word are its parts.** -/
theorem parts_join (hm : 0 < m) (bs : List (BitVec m)) (hw : m * bs.length ≤ w) :
    parts m bs.length (join w bs) = bs := by
  refine ext_getElem? fun j => ?_
  by_cases hj : j < bs.length
  · rw [getElem?_parts _ hj, List.getElem?_eq_getElem hj]
    congr 1
    refine eq_of_getLsbD_eq fun i hi => ?_
    have hlt : m * j + i < w := by
      have hle : m * (j + 1) ≤ m * bs.length := Nat.mul_le_mul_left m hj
      rw [Nat.mul_succ] at hle
      omega
    have hdiv : (m * j + i) / m = j := by rw [Nat.mul_add_div hm, Nat.div_eq_of_lt hi, add_zero]
    have hmod : (m * j + i) % m = i := by rw [Nat.mul_add_mod, Nat.mod_eq_of_lt hi]
    rw [getLsbD_part, getLsbD_join hm, hdiv, hmod, getD_eq_getElem?_getD, List.getElem?_eq_getElem hj]
    simp [hi, hlt]
  · have hle : bs.length ≤ j := Nat.le_of_not_lt hj
    rw [List.getElem?_eq_none hle, List.getElem?_eq_none (by rw [length_parts]; exact hle)]

/-- The parts `k - 1`, …, `0` laid over a word, each at its place. -/
def overlay (f : Nat → BitVec m) : Nat → BitVec w → BitVec w
  | 0, acc => acc
  | j + 1, acc => overlay f j (acc ||| (f j).setWidth w <<< (j * m))

theorem getLsbD_overlay (v acc : BitVec w) (k : Nat) {i : Nat} (hi : i < w) :
    (overlay (part m v) k acc).getLsbD i =
      (acc.getLsbD i || decide (i < k * m) && v.getLsbD i) := by
  induction k generalizing acc with
  | zero => simp [overlay]
  | succ j ih =>
    rw [overlay, ih, getLsbD_or, getLsbD_shiftLeft, getLsbD_setWidth, getLsbD_part]
    -- bit `i` is below part `j`, in it, or above it
    have hmul : (j + 1) * m = j * m + m := Nat.succ_mul j m
    by_cases hlow : i < j * m
    · have hlt : i < (j + 1) * m := by omega
      simp [hlow, hlt]
    · by_cases hin : i < (j + 1) * m
      · have hpart : i - j * m < m := by omega
        have hplace : m * j + (i - j * m) = i := by
          rw [mul_comm m j]
          omega
        have hw : i - j * m < w := by omega
        simp [hlow, hin, hpart, hplace, hi, hw]
      · have hpart : ¬ i - j * m < m := by omega
        simp [hlow, hin, hpart]

/-- **The parts laid over each other are the word.** -/
theorem overlay_part (hw : w ≤ k * m) (v : BitVec w) : overlay (part m v) k 0#w = v := by
  refine eq_of_getLsbD_eq fun i hi => ?_
  rw [getLsbD_overlay v _ k hi]
  simp [lt_of_lt_of_le hi hw]

end Gem5Cxl.Core.WordParts
