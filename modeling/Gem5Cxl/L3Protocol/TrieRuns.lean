import Mathlib.Data.List.MinMax
import Gem5Cxl.L3Protocol.TrieRemoval

/-!
# The trie as a map from prefixes to values

Runs of `insert`, `remove(Handle)` and `remove(Key)`, with the map the trie stands
for as a ghost: one entry for each prefix, with the handle that was returned for
it. The ghost changes as a map does; it never looks at the nodes.

* `refines_map`: in every state of a run, lookups return the value of the
  shortest stored prefix of the key, every handle denotes its entry, and the next
  operation succeeds and returns what it has to.
* `remove_wrong`: `remove(Key)` takes the shortest stored prefix of the key. That
  need not be the entry that was stored under this key.
-/
namespace Gem5Cxl.L3.TrieRuns

open Core Core.Tree L1 L2.Tries L3.TrieShape L3.TrieChanges L3.TrieRemoval List

variable {n : Nat} {V : Type} {T : Core.Tree (Cell n V)} {width : Nat} {t : Trie n V}

/-! ## The map -/

/-- The prefix of the entry is one of `key`. -/
def Matching (key : BitVec n) (e : Entry n V) : Prop := Agree e.width e.key key
  deriving Decidable

/-- The entry of the shortest stored prefix of the key. -/
def shortest (stored : List (Entry n V)) (key : BitVec n) : Option (Entry n V) :=
  (stored.filter fun e => decide (Matching key e)).argmin Entry.width

def erase (stored : List (Entry n V)) (handle : Nat) : List (Entry n V) :=
  stored.filter fun e => e.handle ≠ handle

def Unique (stored : List (Entry n V)) : Prop :=
  ∀ e ∈ stored, ∀ e' ∈ stored, e.width = e'.width → Agree e.width e.key e'.key → e = e'

variable {stored : List (Entry n V)} {key : BitVec n} {e : Entry n V}

theorem mem_shortest (h : shortest stored key = some e) :
    e ∈ stored ∧ Matching key e ∧ ∀ e' ∈ stored, Matching key e' → e.width ≤ e'.width := by
  obtain ⟨hmem, hmatch⟩ := mem_filter.1 (argmin_mem h)
  refine ⟨hmem, of_decide_eq_true hmatch, fun e' he' hmatch' => ?_⟩
  exact le_of_mem_argmin (mem_filter.2 ⟨he', decide_eq_true hmatch'⟩) h

theorem shortest_eq_none : shortest stored key = none ↔ ∀ e ∈ stored, ¬ Matching key e := by
  rw [shortest]
  simp

theorem shortest_eq_some (hunique : Unique stored) (he : e ∈ stored) (hmatch : Matching key e)
    (hmin : ∀ e' ∈ stored, Matching key e' → e.width ≤ e'.width) :
    shortest stored key = some e := by
  cases hs : shortest stored key with
  | none => exact absurd hmatch (shortest_eq_none.1 hs e he)
  | some a =>
    obtain ⟨ha, hmatch', hmin'⟩ := mem_shortest hs
    have hwidth : a.width = e.width := le_antisymm (hmin' e he hmatch) (hmin a ha hmatch')
    have hsame : Agree a.width a.key e.key := hmatch'.trans (hwidth ▸ hmatch.symm)
    rw [hunique a ha e he hwidth hsame]

/-! ## Runs -/

structure Run (n : Nat) (V : Type) where
  trie : Trie n V
  stored : List (Entry n V)

inductive Op (n : Nat) (V : Type)
  | insert (key : BitVec n) (width : Nat) (val : V)
  | remove (handle : Nat)
  | removeKey (key : BitVec n)

def enabled (s : Run n V) : Op n V → Prop
  | .insert key width _ => 0 < width ∧ width ≤ n ∧ NotStored s.stored key width
  | .remove handle => ∃ e ∈ s.stored, e.handle = handle
  | .removeKey _ => True

def step (s : Run n V) : Op n V → Except Fault (Run n V)
  | .insert key width val => do
    let (handle, trie) ← s.trie.insert key width (some val)
    return { trie, stored := ⟨handle, key &&& leadMask n width, width, val⟩ :: s.stored }
  | .remove handle => do
    let (_, trie) ← s.trie.remove handle
    return { trie, stored := erase s.stored handle }
  | .removeKey key => do
    let (_, trie) ← s.trie.removeKey key
    match shortest s.stored key with
    | some e => return { trie, stored := erase s.stored e.handle }
    | none => return { trie, stored := s.stored }

def start : Run n V := { trie := .empty, stored := [] }

def machine (n : Nat) (V : Type) : Machine (Run n V) (Op n V) Fault where
  init s := s = start
  enabled := enabled
  step := step

/-! ## What is asked -/

def Denotes (t : Trie n V) (e : Entry n V) : Prop :=
  ∃ node, t.deref e.handle = .ok node ∧ node.key = e.key ∧ node.mask = leadMask n e.width ∧
    node.value = some e.value

structure Refines (s : Run n V) : Prop where
  lookup : ∀ key, s.trie.lookup key = .ok ((shortest s.stored key).map Entry.value)
  null : ∀ key, s.trie.lookup key = .ok none ↔ ∀ e ∈ s.stored, ¬ Matching key e
  handles : ∀ e ∈ s.stored, Denotes s.trie e
  insert : ∀ key width val, 0 < width → width ≤ n → NotStored s.stored key width →
    ∃ handle t', s.trie.insert key width (some val) = .ok (handle, t') ∧
      ∀ e ∈ s.stored, e.handle ≠ handle
  remove : ∀ e ∈ s.stored, ∃ t', s.trie.remove e.handle = .ok (some e.value, t')
  removeKey : ∀ key, ∃ t', s.trie.removeKey key = .ok ((shortest s.stored key).map Entry.value, t')
  own : ∀ e ∈ s.stored, (∀ e' ∈ s.stored, Matching e.key e' → e.width ≤ e'.width) →
    shortest s.stored e.key = some e

/-! ## The invariant -/

/-- The trie is a tree in shape, whose entries are the map's. -/
structure Inv (s : Run n V) : Prop where
  rep : ∃ T, Rep s.trie T ∧ s.stored.Perm (entries T)
  unique : Unique s.stored

theorem handles_sublist (l : List (Nat × Cell n V)) :
    ((l.filterMap entryOf).map Entry.handle).Sublist (l.map Prod.fst) := by
  induction l with
  | nil => exact .slnil
  | cons e l ih =>
    obtain ⟨id, key, width, value⟩ := e
    cases value with
    | none => exact ih.cons id
    | some v => exact ih.cons_cons id

theorem handles_nodup (h : Rep t T) :
    ((entries T).map Entry.handle).Nodup := h.nodup.sublist (handles_sublist T.elems)

theorem erase_perm {l : List (Entry n V)} (h : stored.Perm (e :: l))
    (hnodup : ((e :: l).map Entry.handle).Nodup) : (erase stored e.handle).Perm l := by
  refine (h.filter _).trans (.of_eq ?_)
  rw [filter_cons_of_neg (by simp), filter_eq_self]
  intro a ha
  have hne : a.handle ≠ e.handle := fun heq =>
    (nodup_cons.1 hnodup).1 (heq ▸ mem_map_of_mem ha)
  simpa using hne

theorem unique_insert (h : Unique stored) {handle : Nat}
    {val : V} (hw : width ≤ n) (hnew : NotStored stored key width) :
    Unique (⟨handle, key &&& leadMask n width, width, val⟩ :: stored) := by
  have hagree : Agree width (key &&& leadMask n width) key := agree_and_leadMask hw key
  intro e he e' he' hwidth hsame
  rcases mem_cons.1 he with rfl | hin
  · rcases mem_cons.1 he' with rfl | hin'
    · rfl
    · exact absurd (hsame.symm.trans hagree) (hnew e' hin' hwidth.symm)
  · rcases mem_cons.1 he' with rfl | hin'
    · exact absurd ((hwidth ▸ hsame).trans hagree) (hnew e hin hwidth)
    · exact h e hin e' hin' hwidth hsame

theorem denotes_of_rep (h : Rep t T) (he : e ∈ entries T) : Denotes t e := by
  obtain ⟨c, l, r, rfl⟩ := exists_focus (mem_entries.1 he)
  exact ⟨_, deref_eq (linked_plug.1 h.linked).2.1, rfl, rfl, rfl⟩

variable {s : Run n V}

theorem lookupHandle_spec (h : Inv s) (key : BitVec n) :
    s.trie.lookupHandle key = .ok ((shortest s.stored key).map Entry.handle) := by
  obtain ⟨T, hrep, hperm⟩ := h.rep
  obtain ⟨l, r, rfl⟩ := hrep.rooted
  have hfuel : n < n + 1 + 0 := by omega
  obtain ⟨res, hrun, hfound⟩ := lookupFrom_spec hrep.linked hrep.shaped (.zero _ key) hfuel
  rw [Trie.lookupHandle, hrun]
  cases res with
  | none =>
    have hnone : shortest s.stored key = none := by
      refine shortest_eq_none.2 fun e he => ?_
      exact hfound (e.handle, ⟨e.key, e.width, some e.value⟩) (mem_entries.1 (hperm.mem_iff.1 he)) rfl
    rw [hnone]
    rfl
  | some id =>
    obtain ⟨⟨key', width, value⟩, hmem, hvalue, hlead, hmin⟩ := hfound
    obtain ⟨v, rfl⟩ := Option.isSome_iff_exists.1 hvalue
    have hstored : (⟨id, key', width, v⟩ : Entry n V) ∈ s.stored := hperm.mem_iff.2 (mem_entries.2 hmem)
    rw [shortest_eq_some h.unique hstored hlead fun e he hmatch =>
      hmin (e.handle, ⟨e.key, e.width, some e.value⟩) (mem_entries.1 (hperm.mem_iff.1 he)) rfl hmatch]
    rfl

/-! ## Steps -/

theorem insert_inv (h : Inv s) (val : V) (hpos : 0 < width) (hw : width ≤ n)
    (hnew : NotStored s.stored key width) :
    ∃ handle t', s.trie.insert key width (some val) = .ok (handle, t') ∧
      (∀ e ∈ s.stored, e.handle ≠ handle) ∧
      Inv { trie := t', stored := ⟨handle, key &&& leadMask n width, width, val⟩ :: s.stored } := by
  obtain ⟨T, hrep, hperm⟩ := h.rep
  obtain ⟨handle, t', T', hrun, hrep', hperm'⟩ :=
    insert_spec hrep val hpos hw fun e he => hnew e (hperm.mem_iff.2 he)
  refine ⟨handle, t', hrun, fun e he heq => ?_, ⟨T', hrep', (hperm.cons _).trans hperm'.symm⟩,
    unique_insert h.unique hw hnew⟩
  -- the handles of the new tree differ
  have hnodup := (hperm'.map Entry.handle).nodup_iff.1 (handles_nodup hrep')
  have hin : e.handle ∈ (entries T).map Entry.handle := mem_map_of_mem (hperm.mem_iff.1 he)
  exact (nodup_cons.1 hnodup).1 (heq ▸ hin)

theorem remove_inv (h : Inv s) (he : e ∈ s.stored) :
    ∃ t', s.trie.remove e.handle = .ok (some e.value, t') ∧
      Inv { trie := t', stored := erase s.stored e.handle } := by
  obtain ⟨T, hrep, hperm⟩ := h.rep
  obtain ⟨t', T', hrun, hrep', hperm'⟩ := remove_spec hrep (hperm.mem_iff.1 he)
  have hnodup := (hperm'.map Entry.handle).nodup_iff.1 (handles_nodup hrep)
  exact ⟨t', hrun, ⟨T', hrep', erase_perm (hperm.trans hperm') hnodup⟩,
    fun e he e' he' => h.unique e (mem_of_mem_filter he) e' (mem_of_mem_filter he')⟩

theorem removeKey_none (h : Inv s) (hs : shortest s.stored key = none) :
    s.trie.removeKey key = .ok (none, s.trie) := by
  rw [Trie.removeKey, lookupHandle_spec h key, hs]
  rfl

theorem removeKey_some (h : Inv s)
    (hs : shortest s.stored key = some e) : s.trie.removeKey key = s.trie.remove e.handle := by
  rw [Trie.removeKey, lookupHandle_spec h key, hs]
  rfl

theorem step_inv (s : Run n V) (op : Op n V) (h : Inv s) (he : enabled s op) :
    ∃ s', step s op = .ok s' ∧ Inv s' := by
  cases op with
  | insert key width val =>
    obtain ⟨hpos, hw, hnew⟩ := he
    obtain ⟨handle, t', hrun, -, hinv⟩ := insert_inv h val hpos hw hnew
    refine ⟨_, ?_, hinv⟩
    rw [step, hrun]
    rfl
  | remove handle =>
    obtain ⟨e, he, rfl⟩ := he
    obtain ⟨t', hrun, hinv⟩ := remove_inv h he
    refine ⟨_, ?_, hinv⟩
    rw [step, hrun]
    rfl
  | removeKey key =>
    cases hs : shortest s.stored key with
    | none =>
      refine ⟨s, ?_, h⟩
      rw [step, removeKey_none h hs, hs]
      rfl
    | some e =>
      obtain ⟨t', hrun, hinv⟩ := remove_inv h (mem_shortest hs).1
      refine ⟨_, ?_, hinv⟩
      rw [step, removeKey_some h hs, hrun, hs]
      rfl

theorem init_inv : Inv (start : Run n V) := by
  refine ⟨⟨.node 0 ⟨0#n, 0, none⟩ .nil .nil, ⟨⟨⟨?_, trivial, trivial⟩, ?_, ?_⟩, ?_, .nil, .nil, rfl⟩, ?_⟩, ?_⟩
  · simp [start, Holds, Trie.empty, Node.make, leadMask, Tree.root]
  · exact pairwise_singleton _ 0
  · intro i hi
    rw [mem_singleton.1 hi]
    exact Nat.zero_lt_one
  · refine ⟨⟨Nat.zero_le n, ?_, by rintro k ⟨⟩, by rintro k ⟨⟩, by rintro k ⟨⟩, by rintro ⟨⟩, fun _ hpos => ?_⟩,
      trivial, trivial⟩
    · exact BitVec.zero_and
    · exact absurd hpos (lt_irrefl 0)
  · exact .refl _
  · rintro e ⟨⟩

theorem Inv.refines (h : Inv s) : Refines s := by
  have hdenotes : ∀ e ∈ s.stored, Denotes s.trie e := by
    obtain ⟨T, hrep, hperm⟩ := h.rep
    exact fun e he => denotes_of_rep hrep (hperm.mem_iff.1 he)
  have hlookup : ∀ key, s.trie.lookup key = .ok ((shortest s.stored key).map Entry.value) := by
    intro key
    rw [Trie.lookup, lookupHandle_spec h key]
    cases hs : shortest s.stored key with
    | none => rfl
    | some e =>
      obtain ⟨node, hderef, -, -, hvalue⟩ := hdenotes e (mem_shortest hs).1
      simp only [Option.map_some, ok_bind, hderef, hvalue]
      rfl
  constructor
  case lookup => exact hlookup
  case null =>
    intro key
    rw [hlookup key, ← shortest_eq_none]
    simp
  case handles => exact hdenotes
  case insert =>
    intro key width val hpos hw hnew
    obtain ⟨handle, t', hrun, hfresh, -⟩ := insert_inv h val hpos hw hnew
    exact ⟨handle, t', hrun, hfresh⟩
  case remove =>
    intro e he
    obtain ⟨t', hrun, -⟩ := remove_inv h he
    exact ⟨t', hrun⟩
  case removeKey =>
    intro key
    cases hs : shortest s.stored key with
    | none => exact ⟨s.trie, removeKey_none h hs⟩
    | some e =>
      obtain ⟨t', hrun, -⟩ := remove_inv h (mem_shortest hs).1
      exact ⟨t', (removeKey_some h hs).trans hrun⟩
  case own =>
    intro e he hmin
    exact shortest_eq_some h.unique he (.refl _ _) hmin

/-- **The trie is the map.** After any insertions of prefixes that were not stored and removals, by
handle or by key, the trie answers as the map does and no operation faults. -/
theorem refines_map {x : Except Fault (Run n V)} (hr : (machine n V).lts.Reachable x) :
    ∃ s, x = .ok s ∧ Refines s := by
  obtain ⟨s, rfl, hinv⟩ := Machine.total (fun s hs => hs ▸ init_inv)
    (fun s op hI he _ => step_inv s op hI he) (Machine.unguarded hr)
  exact ⟨s, rfl, hinv.refines⟩

instance (s : Run n V) (op : Op n V) : Decidable (enabled s op) := by
  cases op <;> dsimp only [enabled, NotStored] <;> infer_instance

/-- Prefixes `1`, `11` and `101` of 8-bit keys, then the first of them is removed. -/
theorem refines_map_three : ∃ s, (machine 8 Nat).lts.Reachable (.ok s) ∧
    s.stored.map Entry.width = [3, 2] ∧ Refines s := by
  have hr := fun {y} => Machine.lts_decided (M := machine 8 Nat) (P := enabled) (fun _ _ => id)
    [.insert 0x80#8 1 10, .insert 0xC0#8 2 20, .insert 0xA0#8 3 30, .removeKey 0xC0#8]
    (y := y) rfl
  obtain ⟨s, hs, hrefines⟩ := refines_map (hr rfl)
  cases hs
  exact ⟨_, hr rfl, rfl, hrefines⟩

/-- With `1` and `11` stored, `remove` of the key of the second deletes and returns the first. -/
theorem remove_wrong : ∃ (s : Run 8 Nat) (t' : Trie 8 Nat), (machine 8 Nat).lts.Reachable (.ok s) ∧
    s.stored = [⟨2, 0xC0#8, 2, 20⟩, ⟨1, 0x80#8, 1, 10⟩] ∧
    s.trie.removeKey 0xC0#8 = .ok (some 10, t') ∧
    t'.deref 1 = .error .danglingPointer ∧ t'.lookup 0xC0#8 = .ok (some 20) := by
  have hr := fun {y} => Machine.lts_decided (M := machine 8 Nat) (P := enabled) (fun _ _ => id)
    [.insert 0x80#8 1 10, .insert 0xC0#8 2 20]
    (y := y) rfl
  exact ⟨_, _, hr rfl, rfl, rfl, rfl, rfl⟩

end Gem5Cxl.L3.TrieRuns
