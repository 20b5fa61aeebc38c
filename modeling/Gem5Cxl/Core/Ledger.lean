import Mathlib.Data.List.Nodup

/-!
# Ledgers

A ledger records open transactions under distinct keys. It is the ghost state
behind a counter: a component that only counts what it owes is right exactly if
its counter is the `count` of the entries it owes for.

* `record`, `amend`, `discard`: open an entry, change entries in place, close
  entries. Keys stay distinct, so an entry is determined by its key (`eq_of_key`).
* `count_record`, `count_amend`, `count_discard`: what each does to a count.
-/
namespace Gem5Cxl.Core

open List

/-- Entries with pairwise distinct keys. -/
structure Ledger {α κ : Type} (key : α → κ) where
  entries : List α
  nodup : (entries.map key).Nodup

namespace Ledger

variable {α κ : Type} {key : α → κ} {b : α} {f : α → α}

instance : Membership α (Ledger key) := ⟨fun l a => a ∈ l.entries⟩

def empty : Ledger key := ⟨[], by simp⟩

variable {l : Ledger key} {a : α} {P : α → Bool}

theorem mem_def : a ∈ l ↔ a ∈ l.entries := .rfl

@[simp] theorem not_mem_empty (a : α) : a ∉ (empty : Ledger key) := not_mem_nil

theorem eq_of_key (ha : a ∈ l) (hb : b ∈ l) (h : key a = key b) : a = b :=
  inj_on_of_nodup_map l.nodup ha hb h

/-- Open the entry `a`; a key that is taken keeps its entry. -/
def record [DecidableEq κ] (l : Ledger key) (a : α) : Ledger key :=
  if h : key a ∈ l.entries.map key then l
  else ⟨l.entries ++ [a], by
    rw [List.map_append, List.nodup_append]
    refine ⟨l.nodup, by simp, ?_⟩
    rintro k hk k' hk' rfl
    simp only [List.map_cons, List.map_nil, List.mem_singleton] at hk'
    exact h (hk' ▸ hk)⟩

def amend (l : Ledger key) (f : α → α) (hf : ∀ a, key (f a) = key a) : Ledger key :=
  ⟨l.entries.map f, by
    have he : key ∘ f = key := funext hf
    rw [List.map_map, he]
    exact l.nodup⟩

/-- Close the entries that `P` picks. -/
def discard (l : Ledger key) (P : α → Bool) : Ledger key :=
  ⟨l.entries.filter (fun a => !P a), l.nodup.sublist (List.filter_sublist.map key)⟩

/-- The number of entries that `P` picks. -/
def count (l : Ledger key) (P : α → Bool) : Nat := l.entries.countP P

theorem entries_record [DecidableEq κ] (h : ∀ b ∈ l, key b ≠ key a) :
    (l.record a).entries = l.entries ++ [a] := by
  have hk : key a ∉ l.entries.map key := by
    rw [mem_map]
    rintro ⟨b, hb, hba⟩
    exact h b hb hba
  simp only [record, dif_neg hk]

theorem mem_record [DecidableEq κ] (h : ∀ b ∈ l, key b ≠ key a) :
    b ∈ l.record a ↔ b ∈ l ∨ b = a := by
  rw [mem_def, entries_record h, mem_append, mem_singleton, mem_def]

theorem forall_record [DecidableEq κ] {Q : α → Prop} (h : ∀ b ∈ l, key b ≠ key a)
    (hl : ∀ b ∈ l, Q b) (ha : Q a) :
    ∀ b ∈ l.record a, Q b := by
  intro b hb
  rcases (mem_record h).1 hb with hb | rfl
  · exact hl b hb
  · exact ha

theorem mem_amend {hf : ∀ a, key (f a) = key a} : b ∈ l.amend f hf ↔ ∃ a ∈ l, f a = b := mem_map

theorem mem_discard : a ∈ l.discard P ↔ a ∈ l ∧ P a = false := by
  rw [mem_def, discard, mem_filter, mem_def, Bool.not_eq_true']

@[simp] theorem count_empty (P : α → Bool) : (empty : Ledger key).count P = 0 := rfl

theorem count_record [DecidableEq κ] (h : ∀ b ∈ l, key b ≠ key a)
    (P : α → Bool) : (l.record a).count P = l.count P + if P a then 1 else 0 := by
  rw [count, entries_record h, countP_append, countP_singleton, count]

theorem count_amend {hf : ∀ a, key (f a) = key a} (h : ∀ a, P (f a) = P a) :
    (l.amend f hf).count P = l.count P := by
  have he : P ∘ f = P := funext h
  rw [count, amend, countP_map, he, count]

theorem count_discard {Q : α → Bool} (ha : a ∈ l) (hq : Q a = true)
    (hone : ∀ b ∈ l, Q b = true → b = a) (P : α → Bool) :
    (l.discard Q).count P + (if P a then 1 else 0) = l.count P := by
  obtain ⟨entries, nodup⟩ := l
  simp only [count, discard]
  induction entries with
  | nil => cases ha
  | cons b bs ih =>
    rw [map_cons, nodup_cons] at nodup
    rcases mem_cons.mp ha with rfl | hbs
    · -- the entry is at the head: `Q` picks none of the others
      have hrest : bs.filter (fun a => !Q a) = bs := by
        rw [filter_eq_self]
        intro c hc
        by_contra hQ
        have hca : c = a := hone c (mem_cons_of_mem _ hc) (by simpa using hQ)
        exact nodup.1 (mem_map.mpr ⟨c, hc, by rw [hca]⟩)
      rw [filter_cons_of_neg (by simp [hq]), hrest, countP_cons]
    · have hQb : Q b = false := by
        by_contra hQ
        have hba : b = a := hone b mem_cons_self (by simpa using hQ)
        exact nodup.1 (mem_map.mpr ⟨a, hbs, by rw [hba]⟩)
      have := ih nodup.2 hbs (fun c hc => hone c (mem_cons_of_mem _ hc))
      rw [filter_cons_of_pos (by simp [hQb]), countP_cons, countP_cons]
      omega

end Ledger

end Gem5Cxl.Core
