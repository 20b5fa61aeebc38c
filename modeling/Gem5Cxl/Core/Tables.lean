import Mathlib.Data.List.Nodup

/-!
# Tables filled entry by entry

A map that a loop fills with `map[key] = value`: an entry replaces the one with
the same key.

* `mem_of_fill`, `fill_of_mem`: what stands in the table.
* `roundTrip_iff`: a table and the table of the same entries the other way round
  are inverse to each other if and only if no two entries share a value.
-/
namespace Gem5Cxl.Core

open List

variable {κ β : Type} [DecidableEq κ] {es : List (κ × β)} {k : κ} {b : β} {t : κ → Option β}

/-- The table `t` after the entries, in order. -/
def fill (t : κ → Option β) : List (κ × β) → κ → Option β
  | [] => t
  | e :: es => fill (Function.update t e.1 (some e.2)) es

theorem fill_append (t : κ → Option β) (es es' : List (κ × β)) :
    fill t (es ++ es') = fill (fill t es) es' := by
  induction es generalizing t with
  | nil => rfl
  | cons e es ih => exact ih _

theorem mem_of_fill (h : fill t es k = some b) : (k, b) ∈ es ∨ t k = some b := by
  induction es generalizing t with
  | nil => exact .inr h
  | cons e es ih =>
    rcases ih h with hmem | ht
    · exact .inl (mem_cons_of_mem _ hmem)
    · rw [Function.update_apply] at ht
      split at ht
      · rename_i hk
        cases ht
        exact .inl (hk ▸ mem_cons_self)
      · exact .inr ht

theorem fill_isSome (h : (k, b) ∈ es ∨ (t k).isSome = true) : ∃ b', fill t es k = some b' := by
  induction es generalizing t with
  | nil =>
    rcases h with hmem | ht
    · cases hmem
    · exact Option.isSome_iff_exists.1 ht
  | cons e es ih =>
    apply ih
    rw [Function.update_apply]
    split
    · exact .inr rfl
    · rename_i hk
      refine h.imp_left fun hmem => (mem_cons.1 hmem).resolve_left ?_
      rintro rfl
      exact hk rfl

theorem fill_of_mem (hd : (es.map Prod.fst).Nodup) (h : (k, b) ∈ es) :
    fill (fun _ => none) es k = some b := by
  obtain ⟨b', hb'⟩ := fill_isSome (t := fun _ => none) (.inl h)
  have hmem := (mem_of_fill hb').resolve_right (by simp)
  have heq := inj_on_of_nodup_map hd hmem h rfl
  rw [hb']
  exact congrArg (fun e => some e.2) heq

theorem fill_iff (hd : (es.map Prod.fst).Nodup) :
    fill (fun _ => none) es k = some b ↔ (k, b) ∈ es :=
  ⟨fun h => (mem_of_fill h).resolve_right (by simp), fill_of_mem hd⟩

/-- The other table is kept by `f` of the value. -/
theorem roundTrip_iff {γ : Type} [DecidableEq γ] {f : β → γ} (hd : (es.map Prod.fst).Nodup) :
    (∀ k b, fill (fun _ => none) es k = some b →
      fill (fun _ => none) (es.map fun e => (f e.2, e.1)) (f b) = some k) ↔
    ∀ e ∈ es, ∀ e' ∈ es, f e.2 = f e'.2 → e.1 = e'.1 := by
  constructor
  · intro h e he e' he' hf
    have h₁ := h e.1 e.2 (fill_of_mem hd he)
    have h₂ := h e'.1 e'.2 (fill_of_mem hd he')
    rw [hf, h₂] at h₁
    exact (Option.some.inj h₁).symm
  · intro h k b hb
    have hmem := (fill_iff hd).1 hb
    have hback : (f b, k) ∈ es.map fun e => (f e.2, e.1) := mem_map.2 ⟨(k, b), hmem, rfl⟩
    obtain ⟨k', hk'⟩ := fill_isSome (t := fun _ => none) (.inl hback)
    obtain ⟨e, he, heq⟩ := mem_map.1 ((mem_of_fill hk').resolve_right (by simp))
    obtain ⟨hf, rfl⟩ := Prod.mk.inj heq
    rw [hk', h e he (k, b) hmem hf]

end Gem5Cxl.Core
