import Mathlib.Algebra.Ring.Nat
import Mathlib.Data.Nat.Bitwise

/-!
# Folding a bit history into a short register

`fold h c n` is the xor of the `n` most recent bits of a history, bit `j` (bit 0 is the most
recent one) at position `j % c`. `advance` is how a register keeps that value when a bit comes
in: shift it in, cancel the bit that leaves the history, wrap bit `c` around, mask.

* `fold_push`: `advance` takes the fold of a history to the fold of the longer one.

The argument is that shift and wrap is linear and moves a bit at `k < c` to `(k + 1) % c`
(`rotate_xor`, `rotate_bit`), so that every bit of the old fold is where the new one wants it,
but for the oldest one, which is cancelled.
-/
namespace Gem5Cxl.Core.Folded

open BitVec

variable {w c n k p : Nat} {b : Bool} {h : Nat → Bool} (x y : BitVec w)

def bit (w : Nat) (b : Bool) : BitVec w := (BitVec.ofBool b).setWidth w

/-- The lowest `c` bits. -/
def mask (w c : Nat) : BitVec w := BitVec.ofNat w (2 ^ c - 1)

def fold (w : Nat) (h : Nat → Bool) (c : Nat) : Nat → BitVec w
  | 0 => 0#w
  | n + 1 => fold w h c n ^^^ bit w (h n) <<< (n % c)

/-- What is at bit `c` and above is moved down by `c` bits. -/
def wrap (c : Nat) (x : BitVec w) : BitVec w := (x ^^^ x >>> c) &&& mask w c

/-- The bit `b` comes in and the bit `out` leaves the history. -/
def advance (c p : Nat) (comp : BitVec w) (b out : Bool) : BitVec w :=
  wrap c ((comp <<< 1 ||| bit w b) ^^^ bit w out <<< p)

/-- The history with one more bit. -/
def push (b : Bool) (h : Nat → Bool) : Nat → Bool
  | 0 => b
  | j + 1 => h j

theorem getLsbD_bit (i : Nat) : (bit w b).getLsbD i = (decide (i = 0 ∧ 0 < w) && b) := by
  rw [bit]
  by_cases hi : i = 0
  · simp [hi]
  · simp [hi]

theorem getLsbD_bit_shiftLeft (hk : k < w) (i : Nat) :
    (bit w b <<< k).getLsbD i = (decide (i = k) && b) := by
  rw [getLsbD_shiftLeft, getLsbD_bit]
  by_cases hi : i = k
  · simp [hi, hk]
    omega
  · by_cases hlt : i < k
    · simp [hi, hlt]
    · have : i - k ≠ 0 := by omega
      simp [hi, this]

theorem getLsbD_mask (hc : c ≤ w) (i : Nat) : (mask w c).getLsbD i = decide (i < c) := by
  rw [mask, getLsbD_ofNat]
  by_cases hi : i < c
  · simp [hi, lt_of_lt_of_le hi hc]
  · simp [hi]

theorem wrap_xor : wrap c (x ^^^ y) = wrap c x ^^^ wrap c y := by
  apply eq_of_getLsbD_eq
  intro i _
  simp only [wrap, getLsbD_and, getLsbD_xor, getLsbD_ushiftRight]
  cases (mask w c).getLsbD i with
  | false => simp
  | true => simp [Bool.xor_left_comm]

theorem wrap_bit (hc : 0 < c) (hw : c < w) (hk : k ≤ c) :
    wrap c (bit w b <<< k) = bit w b <<< (k % c) := by
  have hkc : k % c < w := lt_trans (Nat.mod_lt k hc) hw
  apply eq_of_getLsbD_eq
  intro i _
  rw [wrap, getLsbD_and, getLsbD_xor, getLsbD_ushiftRight, getLsbD_mask (le_of_lt hw),
    getLsbD_bit_shiftLeft (lt_of_le_of_lt hk hw), getLsbD_bit_shiftLeft (lt_of_le_of_lt hk hw),
    getLsbD_bit_shiftLeft hkc]
  rcases lt_or_eq_of_le hk with hlt | rfl
  · rw [Nat.mod_eq_of_lt hlt]
    have hne : c + i ≠ k := by omega
    by_cases hi : i = k
    · simp [hi, hlt, ne_of_gt hc]
    · simp [hi, hne]
  · by_cases hi : i = 0
    · simp [hi, hc, show 0 ≠ k by omega]
    · simp [hi]
      omega

theorem rotate_xor : wrap c ((x ^^^ y) <<< 1) = wrap c (x <<< 1) ^^^ wrap c (y <<< 1) := by
  rw [shiftLeft_xor_distrib, wrap_xor]

theorem rotate_bit (hc : 0 < c) (hw : c < w) (hk : k < c) :
    wrap c (bit w b <<< k <<< 1) = bit w b <<< ((k + 1) % c) := by
  rw [← shiftLeft_add, wrap_bit hc hw hk]

theorem shiftIn_eq_xor (x : BitVec w) : x <<< 1 ||| bit w b = x <<< 1 ^^^ bit w b := by
  apply eq_of_getLsbD_eq
  intro i _
  rw [getLsbD_or, getLsbD_xor, getLsbD_bit]
  by_cases hi : i = 0
  · simp [hi]
  · simp [hi]

theorem advance_eq {out : Bool} (hc : 0 < c) (hw : c < w) (hp : p < c) (x : BitVec w) :
    advance c p x b out = wrap c (x <<< 1) ^^^ bit w b ^^^ bit w out <<< p := by
  have hb : wrap c (bit w b) = bit w b := by
    have h0 := wrap_bit (b := b) hc hw (Nat.zero_le c)
    rwa [Nat.zero_mod, shiftLeft_zero] at h0
  have ho : wrap c (bit w out <<< p) = bit w out <<< p := by
    rw [wrap_bit hc hw (le_of_lt hp), Nat.mod_eq_of_lt hp]
  rw [advance, shiftIn_eq_xor, wrap_xor, wrap_xor, hb, ho]

theorem wrap_zero : wrap c 0#w = 0#w := by
  simp [wrap]

/-- **Incremental folding.** -/
theorem fold_push (hc : 0 < c) (hw : c < w) (n : Nat) :
    advance c (n % c) (fold w h c n) b (push b h n) = fold w (push b h) c n := by
  rw [advance_eq hc hw (Nat.mod_lt n hc)]
  induction n with
  | zero =>
    rw [fold, fold, push, zero_shiftLeft, wrap_zero]
    simp
  | succ n ih =>
    -- the old fold's last bit moves to where the bit that leaves is cancelled
    have hlast : wrap c (bit w (h n) <<< (n % c) <<< 1) = bit w (h n) <<< ((n + 1) % c) := by
      rw [rotate_bit hc hw (Nat.mod_lt n hc), Nat.mod_add_mod]
    calc wrap c (fold w h c (n + 1) <<< 1) ^^^ bit w b ^^^ bit w (push b h (n + 1)) <<< ((n + 1) % c)
        = wrap c (fold w h c n <<< 1) ^^^ bit w (h n) <<< ((n + 1) % c) ^^^ bit w b
            ^^^ bit w (h n) <<< ((n + 1) % c) := by rw [fold, rotate_xor, hlast, push]
      _ = wrap c (fold w h c n <<< 1) ^^^ bit w b := by
          rw [BitVec.xor_assoc _ _ (bit w b), BitVec.xor_comm _ (bit w b), ← BitVec.xor_assoc, BitVec.xor_assoc,
            BitVec.xor_self, BitVec.xor_zero]
      _ = wrap c (fold w h c n <<< 1) ^^^ bit w b ^^^ bit w (push b h n) <<< (n % c)
            ^^^ bit w (push b h n) <<< (n % c) := by rw [BitVec.xor_assoc _ _ (_ <<< _), BitVec.xor_self, BitVec.xor_zero]
      _ = fold w (push b h) c (n + 1) := by rw [ih, fold]

end Gem5Cxl.Core.Folded
