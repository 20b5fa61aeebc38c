import Mathlib.Logic.Function.Basic

/-!
# Labelled transition systems, guarded runs and faulting machines

The systems of this development are interleavings of components, so every
safety result is about the reachable states of a labelled transition system.

* `LTS`, `Reachable`, `Inductive.reachable`: the invariant rule.
* `restrict`: the system whose steps all meet a guard on the state before the
  step and its label. A theorem about the reachable states of `M.restrict G`
  is a theorem about the runs of `M` whose steps all meet `G`.
* `Machine`: a step function that may fault (a failed assertion, a panic, a
  null dereference). A fault is a terminal state of the machine's system, so
  "the assertion never fails" is a statement about reachable states too
  (`Machine.safe`). `Avoids` is the same for one computation, `Yields` says what
  its result meets, and `Ensures` both.
-/
namespace Gem5Cxl.Core

variable {E α β : Type} {y : Except E α} {c : Prop} {a : α} {f : α → Except E β}

variable {x : Except E α} {bad : E → Prop} {P : α → Prop}

/-- What a faulting computation did to get past its first step. -/
theorem bind_eq_ok {b : β} : (x >>= f) = .ok b ↔ ∃ a, x = .ok a ∧ f a = .ok b := by
  cases x with
  | error e | ok a => simp [Bind.bind, Except.bind]

@[simp] theorem ok_bind (a : α) (f : α → Except E β) : (Except.ok a >>= f) = f a := rfl

@[simp] theorem error_bind (e : E) (f : α → Except E β) : (Except.error e >>= f) = .error e := rfl

theorem bind_eq_error {e : E} :
    (x >>= f) = .error e ↔ x = .error e ∨ ∃ a, x = .ok a ∧ f a = .error e := by
  cases x with
  | ok a => simp
  | error e' => simp

/-- The computation does not end in a bad fault. -/
def Avoids {E α : Type} (bad : E → Prop) (x : Except E α) : Prop := ∀ e, x = .error e → ¬ bad e

theorem Avoids.ok (a : α) : Avoids bad (.ok a : Except E α) := by
  intro e h
  cases h

theorem Avoids.error {e : E} (h : ¬ bad e) : Avoids bad (.error e : Except E α) := by
  intro e' he
  cases he
  exact h

theorem Avoids.bind (hx : Avoids bad x) (hf : ∀ a, x = .ok a → Avoids bad (f a)) :
    Avoids bad (x >>= f) := by
  cases x with
  | error e => exact fun e' h => hx e' (by cases h; rfl)
  | ok a => exact hf a rfl

theorem Avoids.foldlM {f : β → α → Except E β}
    (hf : ∀ b a, Avoids bad (f b a)) (l : List α) (b : β) : Avoids bad (l.foldlM f b) := by
  induction l generalizing b with
  | nil => exact .ok _
  | cons a l ih =>
    exact .bind (hf b a) fun b' _ => ih b'

@[simp] theorem avoids_ok (a : α) : Avoids bad (.ok a : Except E α) ↔ True := iff_true_intro (.ok a)

@[simp] theorem avoids_error {e : E} :
    Avoids bad (.error e : Except E α) ↔ ¬ bad e := ⟨fun h => h e rfl, .error⟩

@[simp] theorem avoids_ite [Decidable c] :
    Avoids bad (if c then x else y) ↔ (c → Avoids bad x) ∧ (¬ c → Avoids bad y) := by
  by_cases hc : c <;> simp [hc]

/-- The first part avoids the faults: it depends on the second. -/
@[simp] theorem avoids_bind (hx : Avoids bad x) :
    Avoids bad (x >>= f) ↔ ∀ a, x = .ok a → Avoids bad (f a) := by
  refine ⟨fun h a ha => ?_, hx.bind⟩
  rwa [ha, ok_bind] at h

/-- The computation's result meets `P`, or it ends in a fault that is not bad. -/
def Ensures {E α : Type} (bad : E → Prop) (P : α → Prop) (x : Except E α) : Prop :=
  (∀ a, x = .ok a → P a) ∧ Avoids bad x

theorem Ensures.ok (h : P a) : Ensures bad P (.ok a : Except E α) := by
  refine ⟨fun a' ha => ?_, .ok a⟩
  cases ha
  exact h

theorem Ensures.error {e : E} (h : ¬ bad e) :
    Ensures bad P (.error e : Except E α) := ⟨nofun, .error h⟩

@[simp] theorem ensures_ok : Ensures bad P (.ok a : Except E α) ↔ P a :=
  ⟨fun h => h.1 a rfl, .ok⟩

@[simp] theorem ensures_error {e : E} : Ensures bad P (.error e : Except E α) ↔ ¬ bad e :=
  ⟨fun h => h.2 e rfl, .error⟩

@[simp] theorem ensures_ite [Decidable c] :
    Ensures bad P (if c then x else y) ↔ (c → Ensures bad P x) ∧ (¬ c → Ensures bad P y) := by
  by_cases hc : c <;> simp [hc]

theorem Ensures.imp {Q : α → Prop} (h : Ensures bad P x) (hPQ : ∀ a, P a → Q a) :
    Ensures bad Q x := ⟨fun a ha => hPQ a (h.1 a ha), h.2⟩

@[simp] theorem ensures_bind {Q : β → Prop} :
    Ensures bad Q (x >>= f) ↔ Ensures bad (fun a => Ensures bad Q (f a)) x := by
  cases x with
  | error e => simp
  | ok a => simp

theorem Ensures.bind {Q : β → Prop} (hx : Ensures bad P x)
    (hf : ∀ a, P a → Ensures bad Q (f a)) : Ensures bad Q (x >>= f) := ensures_bind.2 (hx.imp hf)

/-- Whatever the computation returns meets `P`. -/
def Yields {E α : Type} (P : α → Prop) (x : Except E α) : Prop := ∀ a, x = .ok a → P a

@[simp] theorem yields_ok : Yields P (.ok a : Except E α) ↔ P a := by
  simp [Yields]

@[simp] theorem yields_error {e : E} : Yields P (.error e : Except E α) := by
  simp [Yields]

@[simp] theorem yields_ite [Decidable c] :
    Yields P (if c then x else y) ↔ (c → Yields P x) ∧ (¬ c → Yields P y) := by
  by_cases hc : c <;> simp [hc]

@[simp] theorem yields_bind {Q : β → Prop} :
    Yields Q (x >>= f) ↔ Yields (fun a => Yields Q (f a)) x := by
  cases x with
  | error e => simp
  | ok a => simp

@[simp] theorem yields_true : Yields (fun _ => True) x := fun _ _ => trivial

theorem Yields.imp {Q : α → Prop} (hx : Yields P x) (h : ∀ a, P a → Q a) : Yields Q x :=
  fun a ha => h a (hx a ha)

theorem Yields.foldlM {Q : β → Prop} {f : β → α → Except E β} (hf : ∀ b a, Q b → Yields Q (f b a))
    (l : List α) {b : β} (hb : Q b) : Yields Q (l.foldlM f b) := by
  induction l generalizing b with
  | nil => exact yields_ok.2 hb
  | cons a l ih =>
    rw [List.foldlM_cons, yields_bind]
    exact (hf b a hb).imp fun b' => ih

/-- `init` holds of the initial states; `step s l s'`: the system moves from
`s` to `s'` on label `l`. -/
structure LTS (S L : Type) where
  init : S → Prop
  step : S → L → S → Prop

namespace LTS

variable {S L : Type} {M : LTS S L} {G : S → L → Prop}

inductive Reachable (M : LTS S L) : S → Prop
  | init {s : S} : M.init s → Reachable M s
  | step {s s' : S} {l : L} : Reachable M s → M.step s l s' → Reachable M s'

/-- `I` holds initially and every step keeps it. -/
structure Inductive (M : LTS S L) (I : S → Prop) : Prop where
  init : ∀ s, M.init s → I s
  step : ∀ s l s', I s → M.step s l s' → I s'

theorem Inductive.reachable {I : S → Prop} (h : M.Inductive I) {s : S} (hr : M.Reachable s) :
    I s := by
  induction hr with
  | init h0 => exact h.init _ h0
  | step _ hs ih => exact h.step _ _ _ ih hs

/-- The same system, but only the steps whose source state and label meet `G`. -/
def restrict (M : LTS S L) (G : S → L → Prop) : LTS S L where
  init := M.init
  step s l s' := G s l ∧ M.step s l s'

end LTS

/-- A step function that may fault. `enabled` is what the environment may do. -/
structure Machine (S L E : Type) where
  init : S → Prop
  enabled : S → L → Prop
  step : S → L → Except E S

namespace Machine

variable {S L E : Type} {M : Machine S L E}

/-- States are `.ok s`, or `.error e` once a step has faulted; a fault is terminal. -/
def lts (M : Machine S L E) : LTS (Except E S) L where
  init x := ∃ s, M.init s ∧ x = .ok s
  step x l x' := ∃ s, x = .ok s ∧ M.enabled s l ∧ M.step s l = x'

/-- Guards of a machine are stated on its unfaulted states. -/
def guard (G : S → L → Prop) (x : Except E S) (l : L) : Prop := ∀ s, x = .ok s → G s l

/-- The runs of `M` whose steps all meet `G`. -/
def under (M : Machine S L E) (G : S → L → Prop) : LTS (Except E S) L :=
  M.lts.restrict (guard G)

/-- What a faulting step and a completed step of a guarded run are held to. -/
structure Safe (M : Machine S L E) (G : S → L → Prop) (I : S → Prop) (bad : E → Prop) : Prop where
  init : ∀ s, M.init s → I s
  step : ∀ s l s', I s → M.enabled s l → G s l → M.step s l = .ok s' → I s'
  fault : ∀ s l e, I s → M.enabled s l → G s l → M.step s l = .error e → ¬ bad e

variable {G : S → L → Prop} {I : S → Prop} {x y : Except E S} {s : S}

/-- **Invariant rule for faulting machines.** Every state of a guarded run
satisfies the invariant, and a run never ends in a bad fault. -/
theorem safe {bad : E → Prop} (h : M.Safe G I bad) (hr : (M.under G).Reachable x) :
    (∀ s, x = .ok s → I s) ∧ ∀ e, x = .error e → ¬ bad e := by
  have hi : (M.under G).Inductive
      (fun x => (∀ s, x = .ok s → I s) ∧ ∀ e, x = .error e → ¬ bad e) := by
    constructor
    · rintro x ⟨s, hs, rfl⟩
      refine ⟨?_, by simp⟩
      intro s' hs'
      cases hs'
      exact h.init s hs
    · rintro x l x' ⟨hI, -⟩ ⟨hg, s, rfl, he, rfl⟩
      have hs : I s := hI s rfl
      exact ⟨fun s' h' => h.step s l s' hs he (hg s rfl) h',
        fun e h' => h.fault s l e hs he (hg s rfl) h'⟩
  exact hi.reachable hr

section
variable (hinit : ∀ s, M.init s → I s)
include hinit

/-- The rule with one condition for each step. -/
theorem ensured {bad : E → Prop}
    (hstep : ∀ s l, I s → M.enabled s l → G s l → Ensures bad I (M.step s l))
    (hr : (M.under G).Reachable x) : Ensures bad I x :=
  safe ⟨hinit, fun s l s' hi he hg => (hstep s l hi he hg).1 s',
    fun s l e hi he hg => (hstep s l hi he hg).2 e⟩ hr

/-- The rule for machines that never fault. -/
theorem total (hstep : ∀ s l, I s → M.enabled s l → G s l → ∃ s', M.step s l = .ok s' ∧ I s')
    (hr : (M.under G).Reachable x) : ∃ s, x = .ok s ∧ I s := by
  induction hr with
  | init h0 =>
    obtain ⟨s, hs, rfl⟩ := h0
    exact ⟨s, rfl, hinit s hs⟩
  | step _ hs ih =>
    obtain ⟨s, rfl, hI⟩ := ih
    obtain ⟨hg, s₁, hs₁, he, rfl⟩ := hs
    cases hs₁
    exact hstep s _ hI he (hg s rfl)

/-- The rule for machines that fault in one way only. -/
theorem total_or {e : E} (hstep : ∀ s l, I s → M.enabled s l → G s l →
      M.step s l = .error e ∨ ∃ s', M.step s l = .ok s' ∧ I s')
    (hr : (M.under G).Reachable x) : x = .error e ∨ ∃ s, x = .ok s ∧ I s := by
  induction hr with
  | init h0 =>
    obtain ⟨s, hs, rfl⟩ := h0
    exact .inr ⟨s, rfl, hinit s hs⟩
  | step _ hs ih =>
    obtain ⟨hg, s, rfl, he, rfl⟩ := hs
    obtain ⟨s', hs', hI⟩ := ih.resolve_left nofun
    cases hs'
    exact hstep s _ hI he (hg s rfl)

/-- The rule for what holds until a machine faults. -/
theorem invariant (hstep : ∀ s l s', I s → M.enabled s l → G s l → M.step s l = .ok s' → I s')
    {s : S} (hr : (M.under G).Reachable (.ok s)) : I s := by
  have hsafe : M.Safe G I fun _ => False := ⟨hinit, hstep, fun _ _ _ _ _ _ _ => id⟩
  exact (safe hsafe hr).1 s rfl

end

/-- A run is a guarded run of the guard that always holds. -/
theorem unguarded (hr : M.lts.Reachable x) : (M.under fun _ _ => True).Reachable x := by
  induction hr with
  | init h0 => exact .init h0
  | step _ hs ih => exact .step ih ⟨fun _ _ => trivial, hs⟩

/-- Run a list of labels as far as `ok` lets each step happen. -/
def runs (M : Machine S L E) (ok : S → L → Bool) : Except E S → List L → Option (Except E S)
  | x, [] => some x
  | .ok s, l :: ls => if ok s l then runs M ok (M.step s l) ls else none
  | .error _, _ :: _ => none

theorem under_init (h : M.init s) : (M.under G).Reachable (.ok s) :=
  .init ⟨s, h, rfl⟩

theorem under_step (l : L) (hr : (M.under G).Reachable (.ok s)) (he : M.enabled s l) (hg : G s l)
    (hs : M.step s l = x) : (M.under G).Reachable x := by
  refine .step hr ⟨?_, s, rfl, he, hs⟩
  intro s' h'
  cases h'
  exact hg

theorem lts_init (h : M.init s) : M.lts.Reachable (.ok s) := .init ⟨s, h, rfl⟩

/-- A computed run is a run of every system that takes its steps. -/
theorem runs_reachable {T : LTS (Except E S) L} {ok : S → L → Bool}
    (hT : ∀ s l, ok s l = true → T.step (.ok s) l (M.step s l)) (ls : List L)
    (hr : T.Reachable x) (h : M.runs ok x ls = some y) : T.Reachable y := by
  induction ls generalizing x with
  | nil =>
    have hxy : x = y := by cases x <;> simpa [runs] using h
    exact hxy ▸ hr
  | cons l ls ih =>
    cases x with
    | error e => simp [runs] at h
    | ok s =>
      simp only [runs] at h
      split at h
      · rename_i hl
        exact ih (.step hr (hT s l hl)) h
      · cases h

/-- `runs_reachable` for guarded runs. -/
theorem under_runs (ok : S → L → Bool) (hok : ∀ s l, ok s l = true → M.enabled s l ∧ G s l)
    (ls : List L)
    (hr : (M.under G).Reachable x) (h : M.runs ok x ls = some y) : (M.under G).Reachable y := by
  refine runs_reachable ?_ ls hr h
  intro s l hl
  refine ⟨?_, s, rfl, (hok s l hl).1, rfl⟩
  intro s' hs'
  cases hs'
  exact (hok s l hl).2

/-- `runs_reachable` for all runs. -/
theorem lts_runs (ok : S → L → Bool) (hok : ∀ s l, ok s l = true → M.enabled s l) (ls : List L)
    (hr : M.lts.Reachable x) (h : M.runs ok x ls = some y) : M.lts.Reachable y := by
  refine runs_reachable ?_ ls hr h
  intro s l hl
  exact ⟨s, rfl, hok s l hl, rfl⟩

/-- `under_runs` for steps of which it is decided that they may happen. -/
theorem under_decided {P : S → L → Prop} [∀ s l, Decidable (P s l)]
    (hP : ∀ s l, P s l → M.enabled s l ∧ G s l) (ls : List L) (h0 : M.init s)
    (h : M.runs (fun s l => decide (P s l)) (.ok s) ls = some y) : (M.under G).Reachable y :=
  under_runs _ (fun s l hl => hP s l (of_decide_eq_true hl)) ls (under_init h0) h

theorem lts_decided {P : S → L → Prop} [∀ s l, Decidable (P s l)]
    (hP : ∀ s l, P s l → M.enabled s l) (ls : List L) (h0 : M.init s)
    (h : M.runs (fun s l => decide (P s l)) (.ok s) ls = some y) : M.lts.Reachable y :=
  lts_runs _ (fun s l hl => hP s l (of_decide_eq_true hl)) ls (lts_init h0) h

end Machine

end Gem5Cxl.Core
