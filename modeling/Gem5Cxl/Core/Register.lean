import Mathlib.Data.Set.Insert
import Mathlib.Data.List.Nodup

/-!
# Linearizability of an atomic register

A history is a set of operations on one register, each with the number of the call
that started it and, once it has one, of the call that completed it.

* `Precedes`: the one operation is complete before the other starts.
* `Linearization`: an order of the operations in which a register with an initial
  value explains every read. Operations that are not complete may be left out.
* `Linearization.read`: where the value of a read comes from, in terms of `Precedes`
  only. This is all a checker that knows no order can use.
* `Linearizable.before_*`: what was linearizable after a call was so before it.
-/
namespace Gem5Cxl.Core.Register

open List

variable {V : Type} {v : V}

structure Op (V : Type) where
  isWrite : Bool
  value : V
  start : Nat
  complete : Option Nat
deriving DecidableEq, Repr

def Precedes (a b : Op V) : Prop := ∃ c, a.complete = some c ∧ c < b.start

/-- The register's value after the operations. -/
def after : V → List (Op V) → V
  | v, [] => v
  | v, o :: os => after (if o.isWrite then o.value else v) os

/-- Each read returns the value it finds. -/
def Legal : V → List (Op V) → Prop
  | _, [] => True
  | v, o :: os => (o.isWrite = false → o.value = v) ∧ Legal (if o.isWrite then o.value else v) os

instance decidableLegal [DecidableEq V] : (v : V) → (os : List (Op V)) → Decidable (Legal v os)
  | _, [] => isTrue trivial
  | v, o :: os =>
    have := decidableLegal (if o.isWrite then o.value else v) os
    inferInstanceAs (Decidable (_ ∧ _))

theorem after_append (v : V) (l₁ l₂ : List (Op V)) :
    after v (l₁ ++ l₂) = after (after v l₁) l₂ := by
  induction l₁ generalizing v with
  | nil => rfl
  | cons o l₁ ih => exact ih _

theorem legal_append (v : V) (l₁ l₂ : List (Op V)) :
    Legal v (l₁ ++ l₂) ↔ Legal v l₁ ∧ Legal (after v l₁) l₂ := by
  induction l₁ generalizing v with
  | nil => simp [Legal, after]
  | cons o l₁ ih => simp [Legal, after, ih, and_assoc]

variable {l : List (Op V)}

theorem after_reads (h : ∀ o ∈ l, o.isWrite = false) : after v l = v := by
  induction l with
  | nil => rfl
  | cons o l ih =>
    have ho := h o mem_cons_self
    simp only [after, ho, Bool.false_eq_true, if_false]
    exact ih fun o' ho' => h o' (mem_cons_of_mem _ ho')

theorem legal_writes (h : ∀ o ∈ l, o.isWrite = true) : Legal v l := by
  induction l generalizing v with
  | nil => trivial
  | cons o l ih =>
    have ho := h o mem_cons_self
    exact ⟨fun hr => by simp [ho] at hr, ih fun o' ho' => h o' (mem_cons_of_mem _ ho')⟩

theorem split_last_write (l : List (Op V)) :
    (∀ o ∈ l, o.isWrite = false) ∨
      ∃ l₁ w l₂, l = l₁ ++ w :: l₂ ∧ w.isWrite = true ∧ ∀ o ∈ l₂, o.isWrite = false := by
  induction l with
  | nil => exact .inl nofun
  | cons o l ih =>
    rcases ih with hnone | ⟨l₁, w, l₂, rfl, hw, hl₂⟩
    · cases ho : o.isWrite with
      | true => exact .inr ⟨[], o, l, rfl, ho, hnone⟩
      | false => exact .inl (forall_mem_cons.2 ⟨ho, hnone⟩)
    · exact .inr ⟨o :: l₁, w, l₂, rfl, hw, hl₂⟩

structure Linearization (ops : Set (Op V)) (init : V) (order : List (Op V)) : Prop where
  mem : ∀ o ∈ order, o ∈ ops
  complete : ∀ o ∈ ops, o.complete ≠ none → o ∈ order
  nodup : order.Nodup
  respects : order.Pairwise fun a b => ¬ Precedes b a
  legal : Legal init order

def Linearizable (ops : Set (Op V)) : Prop := ∃ init order, Linearization ops init order

theorem Precedes.complete_ne {a b : Op V} (h : Precedes a b) : a.complete ≠ none := by
  obtain ⟨c, hc, -⟩ := h
  simp [hc]

section
variable {ops : Set (Op V)} {init : V} {pre post : List (Op V)} {r : Op V}

theorem Linearization.mem_pre (h : Linearization ops init (pre ++ r :: post)) {a : Op V}
    (ha : a ∈ ops) (hp : Precedes a r) (hne : a ≠ r) : a ∈ pre := by
  have hmem := h.complete a ha hp.complete_ne
  rcases mem_append.1 hmem with hpre | hpost
  · exact hpre
  · rcases mem_cons.1 hpost with rfl | hpost
    · exact absurd rfl hne
    · have hr := (pairwise_cons.1 (pairwise_append.1 h.respects).2.1).1 a hpost
      exact absurd hp hr

theorem Linearization.value (h : Linearization ops init (pre ++ r :: post))
    (hr : r.isWrite = false) :
    r.value = after init pre := ((legal_append _ _ _).1 h.legal).2.1 hr

end

/-- A read returns what a write started before the read's completion wrote. No write lies
between the two, and a read between them has the same value. -/
structure FromWrite (ops : Set (Op V)) (r w : Op V) : Prop where
  mem : w ∈ ops
  isWrite : w.isWrite = true
  value : w.value = r.value
  started : ¬ Precedes r w
  last : ∀ w' ∈ ops, w'.isWrite = true → Precedes w' r → ¬ Precedes w w'
  same : ∀ o ∈ ops, o.isWrite = false → Precedes w o → Precedes o r → o.value = r.value
  between : ∀ o ∈ ops, Precedes w o → Precedes o r →
    ∀ w' ∈ ops, w'.isWrite = true → Precedes o w' → ¬ Precedes w' r

/-- A read returns the initial value: no write is complete before it, and every read
complete before it returned the same. -/
structure FromInit (ops : Set (Op V)) (r : Op V) : Prop where
  first : ∀ w ∈ ops, w.isWrite = true → ¬ Precedes w r
  same : ∀ o ∈ ops, o.isWrite = false → Precedes o r → o.value = r.value

/-- Operations that do not precede themselves: none is complete before it starts. -/
def Forward (ops : Set (Op V)) : Prop := ∀ o ∈ ops, ¬ Precedes o o

section
variable {ops : Set (Op V)} {init : V} {order : List (Op V)} {r : Op V} {w : Op V}

/-- In an order `p₁ ++ w :: p₂ ++ r :: post` whose part `p₂` has only reads, what `w` precedes
and what precedes `r` lies in `p₂`. -/
theorem Linearization.mem_between {p₁ p₂ post : List (Op V)} (hf : Forward ops)
    (h : Linearization ops init ((p₁ ++ w :: p₂) ++ r :: post)) {o : Op V} (ho : o ∈ ops)
    (hwo : Precedes w o) (hor : Precedes o r) : o ∈ p₂ := by
  have hne : o ≠ r := fun he => hf o ho (he ▸ hor)
  have hpair := (pairwise_append.1 (pairwise_append.1 h.respects).1).2.2
  rcases mem_append.1 (h.mem_pre ho hor hne) with hp₁ | hp₂
  · exact absurd hwo (hpair o hp₁ w mem_cons_self)
  · rcases mem_cons.1 hp₂ with rfl | hp₂
    · exact absurd hwo (hf _ ho)
    · exact hp₂

theorem Linearization.fromInit {pre post : List (Op V)} (hf : Forward ops)
    (h : Linearization ops init (pre ++ r :: post)) (hr : r.isWrite = false)
    (hpre : ∀ o ∈ pre, o.isWrite = false) : FromInit ops r := by
  refine ⟨fun w hw hwrite hp => ?_, fun o ho hread hp => ?_⟩
  · have hne : w ≠ r := fun he => by simp [he, hr] at hwrite
    simp [hpre w (h.mem_pre hw hp hne)] at hwrite
  · have hne : o ≠ r := fun he => hf o ho (he ▸ hp)
    obtain ⟨q₁, q₂, rfl⟩ := append_of_mem (h.mem_pre ho hp hne)
    have hor : o.value = after init q₁ := by
      rw [append_assoc] at h
      exact h.value hread
    rw [h.value hr, hor, after_reads hpre, after_reads fun o' ho' => hpre o' (by simp [ho'])]

theorem Linearization.fromWrite {p₁ p₂ post : List (Op V)} (hf : Forward ops)
    (h : Linearization ops init ((p₁ ++ w :: p₂) ++ r :: post)) (hr : r.isWrite = false)
    (hw : w.isWrite = true) (hp₂ : ∀ o ∈ p₂, o.isWrite = false) : FromWrite ops r w := by
  have hsplit := pairwise_append.1 h.respects
  have hpair := (pairwise_append.1 hsplit.1).2
  have hafter : ∀ q, (∀ o ∈ q, o.isWrite = false) → after init (p₁ ++ w :: q) = w.value := by
    intro q hq
    simp only [after_append, after, hw, if_true]
    exact after_reads hq
  have hvalue : r.value = w.value := (h.value hr).trans (hafter p₂ hp₂)
  -- a write before `r` is `w` or comes before it
  have hwrites : ∀ w' ∈ ops, w'.isWrite = true → Precedes w' r → w' ∈ p₁ ∨ w' = w := by
    intro w' hw' hwrite hp
    have hne : w' ≠ r := fun he => by simp [he, hr] at hwrite
    rcases mem_append.1 (h.mem_pre hw' hp hne) with hmem | hmem
    · exact .inl hmem
    · rcases mem_cons.1 hmem with heq | hmem
      · exact .inr heq
      · simp [hp₂ w' hmem] at hwrite
  refine ⟨h.mem w (by simp), hw, hvalue.symm, ?_, ?_, ?_, ?_⟩
  · exact hsplit.2.2 w (by simp) r mem_cons_self
  · intro w' hw' hwrite hp hww'
    rcases hwrites w' hw' hwrite hp with hmem | rfl
    · exact hpair.2 w' hmem w mem_cons_self hww'
    · exact hf _ hw' hww'
  · intro o ho hread hwo hor
    obtain ⟨q₁, q₂, rfl⟩ := append_of_mem (h.mem_between hf ho hwo hor)
    have hov : o.value = after init (p₁ ++ w :: q₁) := by
      have horder : (p₁ ++ w :: (q₁ ++ o :: q₂)) ++ r :: post =
          (p₁ ++ w :: q₁) ++ o :: (q₂ ++ r :: post) := by simp
      rw [horder] at h
      exact h.value hread
    rw [hov, hvalue, hafter q₁ fun o' ho' => hp₂ o' (by simp [ho'])]
  · intro o ho hwo hor w' hw' hwrite how' hp
    have hop₂ := h.mem_between hf ho hwo hor
    rcases hwrites w' hw' hwrite hp with hmem | rfl
    · exact hpair.2 w' hmem o (mem_cons_of_mem _ hop₂) how'
    · exact (pairwise_cons.1 hpair.1).1 o hop₂ how'

/-- **Where a read's value comes from.** -/
theorem Linearization.read (hf : Forward ops) (h : Linearization ops init order) (hr : r ∈ order)
    (hread : r.isWrite = false) : FromInit ops r ∨ ∃ w, FromWrite ops r w := by
  obtain ⟨pre, post, rfl⟩ := append_of_mem hr
  rcases split_last_write pre with hpre | ⟨p₁, w, p₂, rfl, hw, hp₂⟩
  · exact .inl (h.fromInit hf hread hpre)
  · exact .inr ⟨w, h.fromWrite hf hread hw hp₂⟩

end

/-! ## Histories that grow -/

section
variable {ops ops' : Set (Op V)} {m : Nat} {o : Op V}

/-- The operation as it was before call `m`, if it was one: a read is one once it is complete. -/
def Op.before (m : Nat) (o : Op V) : Option (Op V) :=
  if m ≤ o.start then none
  else if o.complete.all (· < m) then some o
  else if o.isWrite then some { o with complete := none }
  else none

theorem before_self (hs : o.start < m) (hc : ∀ c, o.complete = some c → c < m) :
    o.before m = some o := by
  have hall : o.complete.all (· < m) = true := by simpa [Option.all_eq_true] using hc
  rw [Op.before, if_neg (not_le.2 hs), if_pos hall]

theorem before_eq_some {a : Op V} (h : o.before m = some a) :
    a.start = o.start ∧ a.isWrite = o.isWrite ∧ a.value = o.value ∧
      (∀ c, a.complete = some c → o.complete = some c ∧ c < m) ∧ (o.isWrite = false → a = o) := by
  unfold Op.before at h
  split_ifs at h with hs hc hw
  · cases h
    exact ⟨rfl, rfl, rfl, fun c h => ⟨h, by simpa [h] using hc⟩, fun _ => rfl⟩
  · cases h
    exact ⟨rfl, rfl, rfl, nofun, fun hread => absurd hw (Bool.eq_false_iff.1 hread)⟩

theorem before_eq_none (hs : o.start < m) (h : o.before m = none) : o.isWrite = false := by
  unfold Op.before at h
  split_ifs at h with hm _ hw
  · exact absurd hs (not_lt.2 hm)
  · exact Bool.eq_false_iff.2 hw

theorem Legal.before (hr : ∀ o ∈ l, o.isWrite = false → o.complete ≠ none)
    (hp : l.Pairwise fun a b => ¬ Precedes b a) (h : Legal v l) :
    Legal v (l.filterMap (Op.before m)) := by
  induction l generalizing v with
  | nil => exact h
  | cons o l ih =>
    obtain ⟨hol, hpl⟩ := pairwise_cons.1 hp
    have hrl := fun o' ho' => hr o' (mem_cons_of_mem o ho')
    by_cases hs : m ≤ o.start
    · -- reads that were complete before the call come before an operation that starts with it
      have hnone : o.before m = none := if_pos hs
      rw [filterMap_cons_none hnone]
      refine legal_writes fun a ha => ?_
      obtain ⟨b, hb, hba⟩ := mem_filterMap.1 ha
      obtain ⟨-, hw, -, hc, hsame⟩ := before_eq_some hba
      by_contra hread
      rw [hw, Bool.not_eq_true] at hread
      obtain ⟨c, hbc⟩ := Option.ne_none_iff_exists'.1 (hrl b hb hread)
      exact hol b hb ⟨c, hbc, (hc c (hsame hread ▸ hbc)).2.trans_le hs⟩
    · cases hb : o.before m with
      | none =>
        have hread := before_eq_none (not_le.1 hs) hb
        rw [filterMap_cons_none hb]
        exact ih hrl hpl (by simpa only [hread, Bool.false_eq_true, if_false] using h.2)
      | some a =>
        obtain ⟨-, hw, hv, -⟩ := before_eq_some hb
        rw [filterMap_cons_some hb, Legal, hw, hv]
        exact ⟨h.1, ih hrl hpl h.2⟩

/-- **What is linearizable after call `m` was so before it.** -/
theorem Linearizable.earlier (hr : ∀ o ∈ ops', o.isWrite = false → o.complete ≠ none)
    (hinj : ∀ a ∈ ops', ∀ b ∈ ops', a.start = b.start → a = b)
    (hmem : ∀ o ∈ ops', ∀ a ∈ o.before m, a ∈ ops)
    (hops : ∀ o ∈ ops, o.complete ≠ none → o ∈ ops' ∧ o.before m = some o) (h : Linearizable ops') :
    Linearizable ops := by
  obtain ⟨init, order, h⟩ := h
  have hstart : order.Pairwise fun a b => a.start ≠ b.start :=
    h.nodup.imp_of_mem fun ha hb hne heq => hne (hinj _ (h.mem _ ha) _ (h.mem _ hb) heq)
  refine ⟨init, order.filterMap (Op.before m), fun a ha => ?_, fun o ho hc => ?_, ?_, ?_,
    h.legal.before (fun o ho => hr o (h.mem o ho)) h.respects⟩
  · obtain ⟨o, ho, hoa⟩ := mem_filterMap.1 ha
    exact hmem o (h.mem o ho) a hoa
  · obtain ⟨ho', hself⟩ := hops o ho hc
    exact mem_filterMap.2 ⟨o, h.complete o ho' hc, hself⟩
  · refine pairwise_filterMap.2 (hstart.imp fun hne a ha b hb heq => hne ?_)
    rw [← (before_eq_some ha).1, ← (before_eq_some hb).1, heq]
  · refine pairwise_filterMap.2 (h.respects.imp fun hab a ha b hb => ?_)
    rintro ⟨c, hc, hlt⟩
    exact hab ⟨c, ((before_eq_some hb).2.2.2.1 c hc).1, (before_eq_some ha).1 ▸ hlt⟩

end

end Gem5Cxl.Core.Register
