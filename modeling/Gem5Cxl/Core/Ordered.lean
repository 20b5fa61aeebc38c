import Mathlib.Order.Lattice
import Mathlib.Data.List.TakeWhile

/-!
# Lists in the strict order of a key

A binary search tree seen as the list of its elements. An `upper_bound` cuts
such a list into the elements up to a key and those above it.

* `takeWhile_eq_filter`, `dropWhile_eq_filter`: a cut where a predicate ends is a filter.
* `mem_upTo`, `mem_above`: what stands on either side of the cut.
* `InOrder.insert`: an element with a new key goes in at the cut.
-/
namespace Gem5Cxl.Core

open List

section Cut

variable {α : Type} {p : α → Bool} {l : List α}

theorem takeWhile_eq_filter (h : l.Pairwise fun x y => p y = true → p x = true) :
    l.takeWhile p = l.filter p := by
  induction l with
  | nil => rfl
  | cons y l ih =>
    obtain ⟨hy, hl⟩ := pairwise_cons.1 h
    by_cases hp : p y = true
    · rw [takeWhile_cons_of_pos hp, filter_cons_of_pos hp, ih hl]
    · rw [takeWhile_cons_of_neg hp, filter_cons_of_neg hp, eq_comm, filter_eq_nil_iff]
      exact fun x hx => mt (hy x hx) hp

theorem dropWhile_eq_filter (h : l.Pairwise fun x y => p y = true → p x = true) :
    l.dropWhile p = l.filter fun x => !p x := by
  induction l with
  | nil => rfl
  | cons y l ih =>
    obtain ⟨hy, hl⟩ := pairwise_cons.1 h
    by_cases hp : p y = true
    · rw [dropWhile_cons_of_pos hp, filter_cons_of_neg (by simpa using hp), ih hl]
    · rw [dropWhile_cons_of_neg hp, eq_comm, filter_eq_self]
      exact forall_mem_cons.2 ⟨by simpa using hp, fun x hx => by simpa using mt (hy x hx) hp⟩

end Cut

variable {α κ : Type} [LinearOrder κ] {key : α → κ} {k : κ} {l : List α} {x : α}

def InOrder (key : α → κ) (l : List α) : Prop := l.Pairwise fun x y => key x < key y

def upTo (key : α → κ) (k : κ) (l : List α) : List α := l.takeWhile fun x => key x ≤ k

def aboveKey (key : α → κ) (k : κ) (l : List α) : List α := l.dropWhile fun x => key x ≤ k

theorem InOrder.cut (h : InOrder key l) (k : κ) :
    l.Pairwise fun x y => decide (key y ≤ k) = true → decide (key x ≤ k) = true :=
  h.imp fun hlt hy => decide_eq_true (hlt.le.trans (of_decide_eq_true hy))

theorem mem_above (h : InOrder key l) : x ∈ aboveKey key k l ↔ x ∈ l ∧ k < key x := by
  rw [aboveKey, dropWhile_eq_filter (h.cut k)]
  simp

theorem mem_upTo (h : InOrder key l) : x ∈ upTo key k l ↔ x ∈ l ∧ key x ≤ k := by
  rw [upTo, takeWhile_eq_filter (h.cut k)]
  simp

theorem InOrder.insert (h : InOrder key l) {y : α} (hy : ∀ x ∈ l, key x ≠ key y) :
    InOrder key (upTo key (key y) l ++ y :: aboveKey key (key y) l) := by
  have hparts : InOrder key (upTo key (key y) l ++ aboveKey key (key y) l) := by
    rwa [upTo, aboveKey, takeWhile_append_dropWhile]
  obtain ⟨hup, habove, hacross⟩ := pairwise_append.1 hparts
  have hlow : ∀ x ∈ upTo key (key y) l, key x < key y := by
    intro x hx
    obtain ⟨hl, hle⟩ := (mem_upTo h).1 hx
    exact lt_of_le_of_ne hle (hy x hl)
  refine pairwise_append.2 ⟨hup, pairwise_cons.2 ⟨?_, habove⟩, fun x hx => ?_⟩
  · exact fun x hx => ((mem_above h).1 hx).2
  · exact forall_mem_cons.2 ⟨hlow x hx, hacross x hx⟩

end Gem5Cxl.Core
