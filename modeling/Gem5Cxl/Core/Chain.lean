import Mathlib.Data.List.Basic

/-!
# Chains of pointers

A field of linked objects is a function `next` from an object to the next one,
if any. `Chain next a l b` says that whoever starts at `a` and follows `next`
meets the objects of `l`, in order, and is then at `b`. A list with a null end
is a chain to `none`; a segment of it is a chain to whatever follows.

* `chain_append`: chains are cut and joined where the lists are.
* `Chain.congr`, `Chain.update`: a chain depends on its own objects only.
* `Chain.unique`, `Chain.nodup`: a chain to where it first meets `b` is the only one, and meets no
  object twice.
-/
namespace Gem5Cxl.Core

variable {ι : Type}

def Chain (next : ι → Option ι) : Option ι → List ι → Option ι → Prop
  | a, [], b => a = b
  | a, x :: l, b => a = some x ∧ Chain next (next x) l b

section

variable {next next' : ι → Option ι} {a b c : Option ι} {x : ι} {l l' : List ι}

@[simp] theorem chain_nil : Chain next a [] b ↔ a = b := .rfl

@[simp] theorem chain_cons : Chain next a (x :: l) b ↔ a = some x ∧ Chain next (next x) l b :=
  .rfl

theorem chain_append : Chain next a (l ++ l') b ↔ ∃ c, Chain next a l c ∧ Chain next c l' b := by
  induction l generalizing a with
  | nil => simp
  | cons x l ih => simp [ih, and_assoc]

theorem Chain.congr (h : Chain next a l b) (hl : ∀ x ∈ l, next' x = next x) :
    Chain next' a l b := by
  induction l generalizing a with
  | nil => exact h
  | cons x l ih =>
    refine ⟨h.1, ?_⟩
    rw [hl x List.mem_cons_self]
    exact ih h.2 fun y hy => hl y (List.mem_cons_of_mem _ hy)

theorem Chain.update [DecidableEq ι] {v : Option ι} (h : Chain next a l b) (hx : x ∉ l) :
    Chain (Function.update next x v) a l b := by
  refine h.congr fun y hy => Function.update_of_ne ?_ _ _
  rintro rfl
  exact hx hy

theorem Chain.unique (h : Chain next a l b) (h' : Chain next a l' b) (hb : ∀ x ∈ l, b ≠ some x)
    (hb' : ∀ x ∈ l', b ≠ some x) : l = l' := by
  induction l generalizing a l' with
  | nil =>
    cases l' with
    | nil => rfl
    | cons y l' => exact absurd ((chain_nil.1 h).symm.trans h'.1) (hb' y List.mem_cons_self)
  | cons x l ih =>
    obtain ⟨hx, hb⟩ := List.forall_mem_cons.1 hb
    cases l' with
    | nil => exact absurd ((chain_nil.1 h').symm.trans h.1) hx
    | cons y l' =>
      obtain rfl : x = y := Option.some.inj (h.1.symm.trans h'.1)
      rw [ih h.2 h'.2 hb (List.forall_mem_cons.1 hb').2]

theorem Chain.nodup (h : Chain next a l b) (hb : ∀ x ∈ l, b ≠ some x) : l.Nodup := by
  induction l generalizing a with
  | nil => exact .nil
  | cons x l ih =>
    have hbl := (List.forall_mem_cons.1 hb).2
    refine List.nodup_cons.2 ⟨fun hx => ?_, ih h.2 hbl⟩
    -- what follows the second `x` is what follows the first
    obtain ⟨s, t, rfl⟩ := List.append_of_mem hx
    obtain ⟨_, -, -, ht⟩ := chain_append.1 h.2
    have heq := ht.unique h.2 (fun y hy => hbl y (by simp [hy])) hbl
    have hlen := congrArg List.length heq
    simp at hlen
    omega

end

end Gem5Cxl.Core
