import Mathlib.Data.Nat.Bitwise

/-!
# A feedback shift register

Words of `m + 1` bits. A step shifts a word right by one bit, and the new top bit
is the xor of the old lowest and top bits. The register is linear, and its
feedback makes a power of the step the inverse of "step and xor".

* `retreat_advance`, `advance_retreat`: the step and its inverse.
* `iterate_advance_succ`: `advance^[m + 1] x = advance^[m] x ^^^ x`.
* `solve_advance`, `solve_retreat`: the inverses of `x ↦ advance x ^^^ x` and of
  `x ↦ retreat x ^^^ x`, on either side.
-/
namespace Gem5Cxl.Core

open Function

variable {m x y i k : Nat}

def advance (m x : Nat) : Nat := x / 2 ||| (x.testBit 0 ^^ x.testBit m).toNat <<< m

def retreat (m x : Nat) : Nat := 2 * (x % 2 ^ m) + (x.testBit (m - 1) ^^ x.testBit m).toNat

def Word (m x : Nat) : Prop := x < 2 ^ (m + 1)

theorem Word.ext (hx : Word m x) (hy : Word m y) (h : ∀ i, i ≤ m → x.testBit i = y.testBit i) :
    x = y := by
  refine Nat.eq_of_testBit_eq fun i => ?_
  by_cases hi : i ≤ m
  · exact h i hi
  · have hpow : 2 ^ (m + 1) ≤ 2 ^ i := Nat.pow_le_pow_right (by decide) (by omega)
    rw [Nat.testBit_lt_two_pow (lt_of_lt_of_le hx hpow),
      Nat.testBit_lt_two_pow (lt_of_lt_of_le hy hpow)]

theorem Word.xor (hx : Word m x) (hy : Word m y) : Word m (x ^^^ y) := Nat.xor_lt_two_pow hx hy

/-! ## One step -/

theorem testBit_top (b : Bool) : (b.toNat <<< m).testBit i = (decide (i = m) && b) := by
  cases b with
  | false => simp
  | true => simp [Nat.one_shiftLeft, Nat.testBit_two_pow, eq_comm]

theorem testBit_advance (hx : Word m x) (i : Nat) :
    (advance m x).testBit i = if i = m then x.testBit 0 ^^ x.testBit m else x.testBit (i + 1) := by
  have hhigh : x.testBit (m + 1) = false := Nat.testBit_lt_two_pow hx
  rw [advance, Nat.testBit_or, testBit_top, Nat.testBit_div_two]
  split
  · rename_i him
    simp [him, hhigh]
  · rename_i him
    simp [him]

theorem Word.advance (hx : Word m x) : Word m (advance m x) := by
  refine Nat.or_lt_two_pow ?_ ?_
  · have : x < 2 ^ (m + 1) := hx
    omega
  · rw [Nat.shiftLeft_eq]
    have hb := (x.testBit 0 ^^ x.testBit m).toNat_le
    have hpos : 0 < 2 ^ m := Nat.two_pow_pos m
    calc (x.testBit 0 ^^ x.testBit m).toNat * 2 ^ m ≤ 1 * 2 ^ m := Nat.mul_le_mul_right _ hb
      _ < 2 ^ m * 2 := by omega

theorem testBit_retreat (hi : i ≤ m) : (retreat m x).testBit i =
    if i = 0 then x.testBit (m - 1) ^^ x.testBit m else x.testBit (i - 1) := by
  generalize hb : (x.testBit (m - 1) ^^ x.testBit m) = b
  cases i with
  | zero =>
    rw [retreat, hb]
    cases b with
    | false => simp
    | true => simp
  | succ i =>
    have hhalf : retreat m x / 2 = x % 2 ^ m := by
      have := b.toNat_le
      rw [retreat, hb]
      omega
    rw [if_neg (Nat.succ_ne_zero i), Nat.testBit_succ, hhalf, Nat.testBit_mod_two_pow,
      Nat.add_sub_cancel, decide_eq_true (Nat.lt_of_succ_le hi), Bool.true_and]

theorem Word.retreat : Word m (retreat m x) := by
  have hb := (x.testBit (m - 1) ^^ x.testBit m).toNat_le
  rw [Word, Core.retreat]
  omega

theorem advance_retreat (hm : 0 < m) (hx : Word m x) : advance m (retreat m x) = x := by
  refine Word.ext Word.retreat.advance hx fun i hi => ?_
  rw [testBit_advance .retreat]
  split
  · rename_i him
    rw [testBit_retreat (Nat.zero_le m), testBit_retreat le_rfl, if_neg (ne_of_gt hm), him]
    cases x.testBit (m - 1) <;> simp
  · rw [testBit_retreat (by omega), if_neg (Nat.succ_ne_zero i), Nat.add_sub_cancel]

theorem retreat_advance (hm : 0 < m) (hx : Word m x) : retreat m (advance m x) = x := by
  refine Word.ext .retreat hx fun i hi => ?_
  rw [testBit_retreat hi]
  split
  · rename_i hi0
    rw [testBit_advance hx, testBit_advance hx, if_neg (by omega), Nat.sub_add_cancel hm, hi0]
    cases x.testBit m <;> simp
  · rw [testBit_advance hx, if_neg (by omega), Nat.sub_add_cancel (by omega)]

section

variable (hx : Word m x)
include hx

theorem advance_xor (hy : Word m y) : advance m (x ^^^ y) = advance m x ^^^ advance m y := by
  refine Word.ext (hx.xor hy).advance (hx.advance.xor hy.advance) fun i hi => ?_
  rw [Nat.testBit_xor, testBit_advance (hx.xor hy), testBit_advance hx, testBit_advance hy]
  split
  · simp only [Nat.testBit_xor]
    cases x.testBit 0 <;> cases x.testBit m <;> simp
  · rw [Nat.testBit_xor]

/-! ## Powers of the step -/

theorem Word.iterate (k : Nat) : Word m ((Core.advance m)^[k] x) := by
  induction k with
  | zero => exact hx
  | succ k ih =>
    rw [iterate_succ_apply']
    exact ih.advance

theorem iterate_advance_xor (hy : Word m y) (k : Nat) :
    (advance m)^[k] (x ^^^ y) = (advance m)^[k] x ^^^ (advance m)^[k] y := by
  induction k with
  | zero => rfl
  | succ k ih =>
    rw [iterate_succ_apply', iterate_succ_apply', iterate_succ_apply', ih,
      advance_xor (hx.iterate k) (hy.iterate k)]

theorem testBit_iterate (hi : i + k ≤ m) : ((advance m)^[k] x).testBit i = x.testBit (i + k) := by
  induction k generalizing i with
  | zero => rfl
  | succ k ih =>
    rw [iterate_succ_apply', testBit_advance (hx.iterate k), if_neg (by omega),
      ih (by omega), add_right_comm, add_assoc]

/-- What the feedback is for. -/
theorem iterate_advance_succ : (advance m)^[m + 1] x = (advance m)^[m] x ^^^ x := by
  refine Word.ext (hx.iterate _) ((hx.iterate m).xor hx) fun i hi => ?_
  have hw := hx.iterate i
  have htop : ((advance m)^[m] x).testBit i = ((advance m)^[i] x).testBit m := by
    have hsplit : (advance m)^[m] x = (advance m)^[m - i] ((advance m)^[i] x) := by
      rw [← iterate_add_apply, Nat.sub_add_cancel hi]
    rw [hsplit, testBit_iterate hw (by omega), Nat.add_sub_of_le hi]
  have hlow : ((advance m)^[i] x).testBit 0 = x.testBit i := by
    rw [testBit_iterate hx (by omega), zero_add]
  have hnext : (advance m)^[m + 1] x = (advance m)^[m - i] (advance m ((advance m)^[i] x)) := by
    rw [← iterate_succ_apply' (advance m) i, ← iterate_add_apply]
    congr 1
    omega
  rw [Nat.testBit_xor, htop, hnext, testBit_iterate hw.advance (by omega), Nat.add_sub_of_le hi,
    testBit_advance hw, if_pos rfl, hlow, Bool.xor_comm]

/-- `x ↦ advance x ^^^ x` and the `m`-th power of the step undo each other. -/
theorem solve_advance : (advance m)^[m] (advance m x ^^^ x) = x ∧
    advance m ((advance m)^[m] x) ^^^ (advance m)^[m] x = x := by
  have hpow := iterate_advance_succ hx
  constructor
  · rw [iterate_advance_xor hx.advance hx, ← iterate_succ_apply, hpow, Nat.xor_comm,
      ← Nat.xor_assoc, Nat.xor_self, Nat.zero_xor]
  · rw [← iterate_succ_apply' (advance m) m, hpow, Nat.xor_comm, ← Nat.xor_assoc,
      Nat.xor_self, Nat.zero_xor]

end

theorem solve_retreat (hm : 0 < m) (hx : Word m x) :
    (advance m)^[m + 1] (retreat m x ^^^ x) = x ∧
    retreat m ((advance m)^[m + 1] x) ^^^ (advance m)^[m + 1] x = x := by
  have hpow := iterate_advance_succ hx
  constructor
  · rw [iterate_advance_xor .retreat hx, iterate_succ_apply, advance_retreat hm hx, hpow,
      ← Nat.xor_assoc, Nat.xor_self, Nat.zero_xor]
  · rw [iterate_succ_apply' (advance m) m, retreat_advance hm (hx.iterate m),
      ← iterate_succ_apply' (advance m) m, hpow, ← Nat.xor_assoc, Nat.xor_self, Nat.zero_xor]

end Gem5Cxl.Core
