import Mathlib.Algebra.BigOperators.Group.Finset.Piecewise
import Mathlib.Algebra.Order.BigOperators.Group.Finset

/-!
# Counting down dependences

Every producer has a list of the nodes that wait for it, and every node a counter. `owed S out n`
is the number of times that `n` is on the lists of the producers in `S`; it is what the counter of
`n` is to be.

* `owed_push`, `owed_clear`, `owed_insert`: one more dependence, a producer that is done, a new
  producer.
* `not_mem_of_owed`: a node whose counter is zero is on no list.
-/
namespace Gem5Cxl.Core

open Function

variable {κ : Type} [DecidableEq κ] {S : Finset κ} {out : κ → List κ} {p m n : κ}

def owed (S : Finset κ) (out : κ → List κ) (n : κ) : Nat := ∑ p ∈ S, (out p).count n

theorem owed_split (out : κ → List κ) (hp : p ∈ S) (l : List κ) (m : κ) :
    owed S (update out p l) m = l.count m + ∑ q ∈ S \ {p}, (out q).count m := by
  have hcount : (fun q => (update out p l q).count m) =
      update (fun q => (out q).count m) p (l.count m) := by
    funext q
    by_cases hq : q = p
    · subst hq
      rw [update_self, update_self]
    · rw [update_of_ne hq, update_of_ne hq]
  rw [owed, hcount, Finset.sum_update_of_mem hp]

theorem owed_self_split (hp : p ∈ S) (m : κ) :
    owed S out m = (out p).count m + ∑ q ∈ S \ {p}, (out q).count m := by
  have h := owed_split out hp (out p) m
  rwa [update_eq_self] at h

theorem owed_push (hp : p ∈ S) (m n : κ) :
    owed S (update out p (out p ++ [n])) m = owed S out m + if m = n then 1 else 0 := by
  rw [owed_split out hp, owed_self_split hp, List.count_append, List.count_singleton]
  by_cases hmn : m = n
  · simp only [hmn, BEq.rfl, if_true]
    omega
  · have hne : ¬ (n == m) = true := fun h => hmn (eq_of_beq h).symm
    simp only [if_neg hmn, if_neg hne, add_zero]

theorem owed_clear (hp : p ∈ S) (m : κ) :
    owed S out m = owed S (update out p []) m + (out p).count m := by
  rw [owed_split out hp, owed_self_split hp, List.count_nil, zero_add, add_comm]

theorem owed_insert (hp : p ∉ S) (hnil : out p = []) (m : κ) :
    owed (insert p S) out m = owed S out m := by
  rw [owed, Finset.sum_insert hp, hnil, List.count_nil, zero_add]
  rfl

theorem not_mem_of_owed (h : owed S out n = 0) (hp : p ∈ S) : n ∉ out p :=
  List.count_eq_zero.1 (Finset.sum_eq_zero_iff.1 h p hp)

end Gem5Cxl.Core
