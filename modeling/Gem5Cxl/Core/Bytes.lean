import Mathlib.Algebra.Ring.Nat
import Mathlib.Algebra.Order.Ring.Nat

/-!
# Byte memories read and written in little-endian order

A memory is a function from byte addresses to bytes. An access of `n` bytes at
`a` reads or writes the bytes `[a, a + n)` as one number, lowest byte first.

* `byteOf_readLE`: a read returns each byte of its region.
* `readLE_writeLE`, `readLE_writeLE_sub`: a read of what was just written, or of a
  part of it, returns it.
* `readLE_writeLE_of_disjoint`, `writeLE_outside`: a write changes only its own
  region.
-/
namespace Gem5Cxl.Core

abbrev Bytes := Nat → UInt8

/-- Byte `j` of a number, the lowest being byte 0. -/
def byteOf (v j : Nat) : UInt8 := UInt8.ofNat (v / 256 ^ j)

def readLE (m : Bytes) : Nat → Nat → Nat
  | _, 0 => 0
  | a, n + 1 => (m a).toNat + 256 * readLE m (a + 1) n

def writeLE (m : Bytes) (a n v : Nat) : Bytes := fun b =>
  if a ≤ b ∧ b < a + n then byteOf v (b - a) else m b

section

variable {m m' : Bytes} {a b n k v : Nat}

theorem writeLE_inside (h : a ≤ b) (h' : b < a + n) : writeLE m a n v b = byteOf v (b - a) :=
  if_pos ⟨h, h'⟩

theorem writeLE_outside (h : b < a ∨ a + n ≤ b) : writeLE m a n v b = m b := by
  refine if_neg ?_
  omega

theorem readLE_congr (h : ∀ j, j < n → m (a + j) = m' (a + j)) : readLE m a n = readLE m' a n := by
  induction n generalizing a with
  | zero => rfl
  | succ n ih =>
    have h0 : m a = m' a := h 0 (by omega)
    have hn : readLE m (a + 1) n = readLE m' (a + 1) n := by
      refine ih fun j hj => ?_
      have := h (j + 1) (by omega)
      rwa [show a + (j + 1) = a + 1 + j by omega] at this
    simp only [readLE, h0, hn]

theorem readLE_lt (m : Bytes) (a n : Nat) : readLE m a n < 256 ^ n := by
  induction n generalizing a with
  | zero => simp [readLE]
  | succ n ih =>
    have hb := (m a).toNat_lt
    have hn := ih (a + 1)
    simp only [readLE, pow_succ]
    omega

theorem byteOf_zero (v : Nat) : (byteOf v 0).toNat = v % 256 := by
  simp [byteOf]

theorem byteOf_succ (v j : Nat) : byteOf v (j + 1) = byteOf (v / 256) j := by
  rw [byteOf, byteOf, pow_succ', Nat.div_div_eq_div_mul]

theorem byteOf_readLE (m : Bytes) (a : Nat) {j : Nat} (h : j < n) :
    byteOf (readLE m a n) j = m (a + j) := by
  induction n generalizing a j with
  | zero => omega
  | succ n ih =>
    have hb := (m a).toNat_lt
    cases j with
    | zero =>
      show byteOf _ 0 = m a
      apply UInt8.toNat_inj.1
      rw [byteOf_zero, readLE]
      omega
    | succ j =>
      have hd : readLE m a (n + 1) / 256 = readLE m (a + 1) n := by
        rw [readLE]
        omega
      rw [byteOf_succ, hd, ih (a + 1) (by omega), show a + 1 + j = a + (j + 1) by omega]

theorem readLE_bytes (h : ∀ j, j < n → m (a + j) = byteOf v j) : readLE m a n = v % 256 ^ n := by
  induction n generalizing a v with
  | zero => simp [readLE, Nat.mod_one]
  | succ n ih =>
    have h0 : (m a).toNat = v % 256 := by
      rw [show m a = byteOf v 0 from h 0 (by omega), byteOf_zero]
    have hn : readLE m (a + 1) n = v / 256 % 256 ^ n := by
      refine ih fun j hj => ?_
      rw [← byteOf_succ, ← h (j + 1) (by omega), show a + 1 + j = a + (j + 1) by omega]
    rw [readLE, h0, hn, pow_succ', Nat.mod_mul]

theorem readLE_writeLE_sub (m : Bytes) (h : a ≤ b) (h' : b + k ≤ a + n) :
    readLE (writeLE m a n v) b k = v / 256 ^ (b - a) % 256 ^ k := by
  refine readLE_bytes fun j hj => ?_
  rw [writeLE_inside (by omega) (by omega), byteOf, byteOf, Nat.div_div_eq_div_mul, ← pow_add,
    show b + j - a = b - a + j by omega]

theorem readLE_writeLE (m : Bytes) (a n v : Nat) : readLE (writeLE m a n v) a n = v % 256 ^ n := by
  simpa using readLE_writeLE_sub m le_rfl le_rfl

theorem readLE_writeLE_of_disjoint (h : b + k ≤ a ∨ a + n ≤ b) :
    readLE (writeLE m a n v) b k = readLE m b k := by
  refine readLE_congr fun j hj => writeLE_outside ?_
  omega

end

end Gem5Cxl.Core
