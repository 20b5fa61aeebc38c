import Mathlib.Algebra.Ring.Nat
import Mathlib.Data.Nat.Bitwise

/-!
# Intervals cut at line boundaries

A region `[a, a + s)` of an address space with lines of `c` bytes is sent
piece by piece, each piece inside one line.

* `Tiles a s l`: the pieces `l` cover `[a, a + s)` in order, each starting
  where the one before it ended.
* `InLine c p`: the piece does not leave its line.
* `lineChunks c a s`: the pieces cut at the line boundaries. It is a tiling by
  non-empty pieces inside their lines (`lineChunks_tiles`,
  `lineChunks_inLine`, `lineChunks_pos`), one piece for each line the region
  meets (`lineChunks_length`).
* `Tiles.end_le`: such a tiling stays inside an address space that is a
  multiple of the line size, if its pieces start there.
* `bytes l`: how many bytes the pieces hold; a tiling holds as many as its
  region (`Tiles.bytes_eq`), so a tiling with a piece left out is none.
* `and_high`: clearing the low bits of a word with a mask.
-/
namespace Gem5Cxl.Core

open List

/-- A piece of an address space: `size` bytes from `addr` on. -/
structure Chunk where
  addr : Nat
  size : Nat
deriving DecidableEq, Repr

/-- The pieces cover `[a, a + s)` in order. -/
inductive Tiles : Nat → Nat → List Chunk → Prop
  | nil (a : Nat) : Tiles a 0 []
  | cons {a n s : Nat} {l : List Chunk} : Tiles (a + n) s l → Tiles a (n + s) (⟨a, n⟩ :: l)

/-- The piece stays inside the line of its first byte. -/
def InLine (c : Nat) (p : Chunk) : Prop := p.addr % c + p.size ≤ c
  deriving Decidable

/-- How many bytes the pieces hold. -/
def bytes : List Chunk → Nat
  | [] => 0
  | p :: l => p.size + bytes l

@[simp] theorem bytes_nil : bytes [] = 0 := rfl

@[simp] theorem bytes_cons (p : Chunk) (l : List Chunk) : bytes (p :: l) = p.size + bytes l := rfl

@[simp] theorem bytes_append (l m : List Chunk) : bytes (l ++ m) = bytes l + bytes m := by
  induction l with
  | nil => simp
  | cons p l ih => simp [ih, add_assoc]

variable {l m : List Chunk} {p : Chunk} {a s : Nat}

theorem bytes_perm (h : l.Perm m) : bytes l = bytes m := by
  induction h with
  | nil => rfl
  | cons p _ ih => rw [bytes_cons, bytes_cons, ih]
  | swap p q l =>
    simp only [bytes_cons]
    omega
  | trans _ _ ih ih' => exact ih.trans ih'

theorem bytes_sublist (h : l.Sublist m) : bytes l ≤ bytes m := by
  induction h with
  | slnil => exact le_rfl
  | cons p _ ih | cons_cons p _ ih =>
    simp only [bytes_cons]
    omega

theorem eq_of_bytes (h : l.Sublist m) (hpos : ∀ p ∈ m, 0 < p.size) (hb : bytes l = bytes m) :
    l = m := by
  induction h with
  | slnil => rfl
  | cons p h ih =>
    have hle := bytes_sublist h
    have hp := hpos p mem_cons_self
    simp only [bytes_cons] at hb
    omega
  | cons_cons p h ih =>
    simp only [bytes_cons] at hb
    rw [ih (fun x hx => hpos x (mem_cons_of_mem _ hx)) (by omega)]

theorem Tiles.bytes_eq (h : Tiles a s l) : bytes l = s := by
  induction h with
  | nil a => rfl
  | cons _ ih => simp [ih]

theorem Tiles.snoc (h : Tiles a s l) (n : Nat) : Tiles a (s + n) (l ++ [⟨a + s, n⟩]) := by
  induction h with
  | nil a => simpa using .cons (.nil (a + n))
  | cons _ ih => simpa [add_assoc] using Tiles.cons ih

theorem length_le_bytes (h : ∀ p ∈ l, 0 < p.size) : l.length ≤ bytes l := by
  induction l with
  | nil => exact le_rfl
  | cons p l ih =>
    obtain ⟨hp, h⟩ := forall_mem_cons.1 h
    simpa [add_comm] using Nat.add_le_add hp (ih h)

theorem Tiles.cons_inv (h : Tiles a s (p :: l)) :
    p.addr = a ∧ p.size ≤ s ∧ Tiles (a + p.size) (s - p.size) l := by
  cases h with
  | cons h =>
    exact ⟨rfl, Nat.le_add_right _ _, by simpa using h⟩

theorem Tiles.addr_of_append (h : Tiles a s (l ++ p :: m)) : p.addr = a + bytes l := by
  induction l generalizing a s with
  | nil => exact h.cons_inv.1
  | cons q l ih =>
    have hq := h.cons_inv
    have hp := ih hq.2.2
    simp only [bytes_cons]
    omega

/-! ## Cutting at line boundaries -/

/-- `fuel` bounds the number of pieces; a region of `s` bytes has at most `s`. -/
def lineChunksGo (c : Nat) : Nat → Nat → Nat → List Chunk
  | 0, _, _ => []
  | fuel + 1, a, s =>
    if s = 0 then [] else
      let n := min s (c - a % c)
      ⟨a, n⟩ :: lineChunksGo c fuel (a + n) (s - n)

/-- The region `[a, a + s)` cut at the boundaries of the lines of `c` bytes. -/
def lineChunks (c a s : Nat) : List Chunk := lineChunksGo c s a s

section LineChunks

variable {c : Nat}

theorem first_pos (hc : 0 < c) (a : Nat) (hs : 0 < s) : 0 < min s (c - a % c) := by
  have := Nat.mod_lt a hc
  omega

theorem lineChunksGo_fuel (hc : 0 < c) (f g a s : Nat) (hf : s ≤ f) (hg : s ≤ g) :
    lineChunksGo c f a s = lineChunksGo c g a s := by
  induction f generalizing g a s with
  | zero =>
    obtain rfl : s = 0 := by omega
    cases g <;> simp [lineChunksGo]
  | succ f ih =>
    cases g with
    | zero =>
      obtain rfl : s = 0 := by omega
      simp [lineChunksGo]
    | succ g =>
      simp only [lineChunksGo]
      split
      · rfl
      · rename_i hs
        have hn := first_pos hc a (Nat.pos_of_ne_zero hs)
        congr 1
        exact ih g _ _ (by omega) (by omega)

@[simp] theorem lineChunks_zero (a : Nat) : lineChunks c a 0 = [] := rfl

section
variable (hc : 0 < c)
include hc

theorem lineChunks_cons (a : Nat) (hs : 0 < s) :
    lineChunks c a s =
      ⟨a, min s (c - a % c)⟩ :: lineChunks c (a + min s (c - a % c)) (s - min s (c - a % c)) := by
  obtain ⟨s, rfl⟩ : ∃ t, s = t + 1 := ⟨s - 1, by omega⟩
  have hn := first_pos hc a hs
  have h0 : ¬ s + 1 = 0 := by omega
  simp only [lineChunks, lineChunksGo, if_neg h0]
  congr 1
  exact lineChunksGo_fuel hc _ _ _ _ (by omega) le_rfl

/-- Induction along the cut: what holds of the empty region and passes from
the rest of a region to the region holds of every region. -/
theorem lineChunks_induct {P : Nat → Nat → Prop} (zero : ∀ a, P a 0)
    (cons : ∀ a s, 0 < s → P (a + min s (c - a % c)) (s - min s (c - a % c)) → P a s) (a s : Nat) :
    P a s := by
  induction s using Nat.strongRecOn generalizing a with
  | ind s ih =>
    rcases Nat.eq_zero_or_pos s with rfl | hs
    · exact zero a
    · have hn := first_pos hc a hs
      exact cons a s hs (ih _ (by omega) _)

theorem lineChunks_tiles (a s : Nat) : Tiles a s (lineChunks c a s) := by
  induction a, s using lineChunks_induct hc with
  | zero a => exact .nil a
  | cons a s hs ih =>
    rw [lineChunks_cons hc a hs]
    have h := Tiles.cons ih
    rwa [Nat.add_sub_cancel' (min_le_left _ _)] at h

theorem lineChunks_inLine (a s : Nat) : ∀ p ∈ lineChunks c a s, InLine c p := by
  induction a, s using lineChunks_induct hc with
  | zero a => simp
  | cons a s hs ih =>
    rw [lineChunks_cons hc a hs]
    refine forall_mem_cons.2 ⟨?_, ih⟩
    have := Nat.mod_lt a hc
    simp only [InLine]
    omega

theorem lineChunks_pos (a s : Nat) : ∀ p ∈ lineChunks c a s, 0 < p.size := by
  induction a, s using lineChunks_induct hc with
  | zero a => simp
  | cons a s hs ih =>
    rw [lineChunks_cons hc a hs]
    exact forall_mem_cons.2 ⟨first_pos hc a hs, ih⟩

/-- After the first piece the region starts at a line, or nothing is left of it. -/
theorem first_end (a : Nat) (h : c - a % c < s) : a + min s (c - a % c) = (a / c + 1) * c := by
  have hd := Nat.div_add_mod a c
  have hm := Nat.mod_lt a hc
  rw [add_mul, mul_comm (a / c) c]
  omega

/-- An address within a line's length of a multiple of the line size is in the
last line below it, or past it. -/
theorem line_next {n : Nat} (hd : c ∣ n) (ha : n ≤ a + c) : n ≤ a + (c - a % c) := by
  obtain ⟨m, rfl⟩ := hd
  have hq := Nat.div_add_mod a c
  have hm := Nat.mod_lt a hc
  have h1 : m < a / c + 2 := by
    refine Nat.lt_of_mul_lt_mul_left (a := c) ?_
    rw [mul_add]
    omega
  have h2 := Nat.mul_le_mul_left c (Nat.le_of_lt_succ h1)
  rw [mul_add] at h2
  omega

end

theorem line_end_le {n : Nat} (hd : c ∣ n) (ha : a < n) : a + (c - a % c) ≤ n := by
  obtain ⟨m, rfl⟩ := hd
  have h1 : a / c + 1 ≤ m := Nat.div_lt_of_lt_mul ha
  have h2 := Nat.mul_le_mul_left c h1
  have hq := Nat.div_add_mod a c
  rw [mul_add] at h2
  omega

/-- A tiling by pieces inside their lines ends where the address space does, or before. -/
theorem Tiles.end_le {n : Nat} (hd : c ∣ n) (h : Tiles a s l)
    (ha : a ≤ n) (hl : ∀ p ∈ l, InLine c p ∧ p.addr < n) : a + s ≤ n := by
  induction h with
  | nil a => exact ha
  | cons h ih =>
    obtain ⟨hin, hlt⟩ := hl _ mem_cons_self
    have hle := line_end_le hd hlt
    simp only [InLine] at hin hle
    have := ih (by omega) (fun p hp => hl p (mem_cons_of_mem _ hp))
    omega

/-- The number of lines that `[a, a + s)` meets. -/
def lines (c a s : Nat) : Nat := (a + s - 1) / c - a / c + 1

theorem lineChunks_length (hc : 0 < c) (a s : Nat) (hs : 0 < s) :
    (lineChunks c a s).length = lines c a s := by
  induction a, s using lineChunks_induct hc with
  | zero a => cases hs
  | cons a s _ ih =>
    rw [lineChunks_cons hc a hs, length_cons]
    have hd := Nat.div_add_mod a c
    rcases lt_or_ge (c - a % c) s with h | h
    · -- the rest starts at the next line
      have he := first_end hc a h
      have hr := ih (by omega)
      rw [hr, lines, lines, he, Nat.mul_div_cancel _ hc]
      have hend : (a / c + 1) * c + (s - min s (c - a % c)) - 1 = a + s - 1 := by omega
      have hle : a / c + 1 ≤ (a + s - 1) / c := (Nat.le_div_iff_mul_le hc).2 (by omega)
      rw [hend]
      omega
    · -- the region is inside one line
      have hmin : min s (c - a % c) = s := min_eq_left h
      have hlt : (a + s - 1) / c = a / c := by
        refine Nat.div_eq_of_lt_le ?_ ?_
        · rw [mul_comm]
          omega
        · rw [add_mul, mul_comm (a / c) c]
          omega
      rw [hmin, lines, hlt]
      simp

end LineChunks

/-! ## Masks -/

theorem and_high {w k x : Nat} (hk : k ≤ w) (hx : x < 2 ^ w) :
    x &&& (2 ^ w - 2 ^ k) = x / 2 ^ k * 2 ^ k := by
  have hm : 2 ^ w - 2 ^ k = (2 ^ (w - k) - 1) <<< k := by
    rw [Nat.shiftLeft_eq, Nat.sub_mul, ← pow_add, Nat.sub_add_cancel hk, one_mul]
  have hd : x / 2 ^ k * 2 ^ k = (x >>> k) <<< k := by
    rw [Nat.shiftLeft_eq, Nat.shiftRight_eq_div_pow]
  rw [hm, hd]
  refine Nat.eq_of_testBit_eq fun i => ?_
  rw [Nat.testBit_and, Nat.testBit_shiftLeft, Nat.testBit_shiftLeft, Nat.testBit_shiftRight]
  by_cases hik : k ≤ i
  · rw [Nat.add_sub_cancel' hik]
    by_cases hiw : i < w
    · have : i - k < w - k := by omega
      simp [hik, this]
    · have : x.testBit i = false :=
        Nat.testBit_lt_two_pow (hx.trans_le (Nat.pow_le_pow_right (by decide) (by omega)))
      simp [this]
  · simp [hik]

end Gem5Cxl.Core
