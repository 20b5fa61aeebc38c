import Mathlib.Data.List.Pairwise
import Mathlib.Data.Prod.Lex
import Mathlib.Order.WithBot
import Gem5Cxl.Core.Ordered
import Gem5Cxl.L2Machine.RangeMap

/-!
# Lookups of an address range map

What `find` returns, for the conditions that the map's operations pass to it.

* `lt_iff_key`: `operator<` is the order of a key, so the tree is a list in the
  order of that key.
* `Separate`: two ranges that may be stored together. They lie apart, or they
  are different stripes of one interleaving (`Separate.disjoint`).
* `Lookup`, `find_lookup`: one call of `find`. An entry that it returns meets
  the condition; if it returns `end()`, the first entry above the argument does
  not meet it, and none below does that is only followed by entries that merge
  with it.
* `Stored`: what a map keeps of its tree and its cache. With it a lookup of an
  address misses no entry (`Lookup.point_complete`).
-/
namespace Gem5Cxl.L3.RangeLookup

open Core L1 L2.RangeMap L2.RangeMap.AddrRangeMap List

/-! ## Ranges -/

/-- A range as the constructors build it: not empty, and with a match value that its masks
can select. -/
def Valid (r : AddrRange) : Prop :=
  r.start < r.stop ∧ r.stop < 2 ^ 64 ∧ r.intlvMatch < 2 ^ r.masks.length
  deriving Decidable

/-- `granularity` of the range has a meaning. -/
def Granular (r : AddrRange) : Prop := r.masks = [] ∨ r.combinedMask ≠ 0
  deriving Decidable

/-- The intervals of the two ranges have an address in common. -/
def Overlap (r s : AddrRange) : Prop := r.start < s.stop ∧ s.start < r.stop
  deriving Decidable

/-- Both ranges are plain, or they are stripes of one interleaving. -/
def Alike (r s : AddrRange) : Prop := (r.masks = [] ∧ s.masks = []) ∨ r.mergesWith s = true
  deriving Decidable

def Separate (r s : AddrRange) : Prop :=
  Overlap r s → r.mergesWith s = true ∧ r.intlvMatch ≠ s.intlvMatch

/-- The key that `operator<` compares: among the ranges with one start the
interleaved ones come first, in the order of their match values. -/
def key (r : AddrRange) : ℕ ×ₗ WithTop ℕ :=
  toLex (r.start, if r.interleaved then WithTop.some r.intlvMatch else ⊤)

section

variable {r s t : AddrRange}

theorem lt_iff_key : r.lt s = true ↔ key r < key s := by
  rw [key, key, Prod.Lex.toLex_lt_toLex]
  by_cases hs : r.start = s.start
  · cases hr : r.interleaved <;> cases hi : s.interleaved <;> simp [AddrRange.lt, hs, hr, hi]
  · simp [AddrRange.lt, hs]

theorem not_lt_eq_key_le : (!r.lt s) = decide (key s ≤ key r) := by
  rw [Bool.eq_iff_iff, Bool.not_eq_true', ← Bool.not_eq_true, lt_iff_key, not_lt, decide_eq_true_iff]

theorem start_le_of_key (h : key r ≤ key s) : r.start ≤ s.start := by
  rcases Prod.Lex.toLex_le_toLex.1 h with h | h
  · exact h.le
  · exact h.1.le

theorem key_le_of_start (hs : s.masks = []) (h : r.start ≤ s.start) : key r ≤ key s := by
  rcases h.lt_or_eq with h | h
  · exact (Prod.Lex.toLex_lt_toLex.2 (.inl h)).le
  · exact Prod.Lex.toLex_le_toLex.2 (.inr ⟨h, by simp [AddrRange.interleaved, hs]⟩)

theorem mergesWith_iff :
    r.mergesWith s = true ↔ r.start = s.start ∧ r.stop = s.stop ∧ r.masks = s.masks := by
  simp only [AddrRange.mergesWith, Bool.and_eq_true, decide_eq_true_eq, and_assoc]
  exact ⟨fun h => ⟨h.1.symm, h.2.1.symm, h.2.2.symm⟩, fun h => ⟨h.1.symm, h.2.1.symm, h.2.2.symm⟩⟩

theorem mergesWith_symm (h : r.mergesWith s = true) : s.mergesWith r = true := by
  obtain ⟨h₁, h₂, h₃⟩ := mergesWith_iff.1 h
  exact mergesWith_iff.2 ⟨h₁.symm, h₂.symm, h₃.symm⟩

theorem mergesWith_trans (h : r.mergesWith s = true) (h' : s.mergesWith t = true) :
    r.mergesWith t = true := by
  obtain ⟨h₁, h₂, h₃⟩ := mergesWith_iff.1 h
  obtain ⟨h₁', h₂', h₃'⟩ := mergesWith_iff.1 h'
  exact mergesWith_iff.2 ⟨h₁.trans h₁', h₂.trans h₂', h₃.trans h₃'⟩

theorem key_eq_of_merges (h : r.mergesWith s = true) (hm : r.intlvMatch = s.intlvMatch) :
    key r = key s := by
  obtain ⟨h₁, -, h₃⟩ := mergesWith_iff.1 h
  simp [key, AddrRange.interleaved, h₁, h₃, hm]

theorem Overlap.symm (h : Overlap r s) : Overlap s r := ⟨h.2, h.1⟩

theorem Separate.symm (h : Separate r s) : Separate s r := by
  intro ho
  obtain ⟨hm, hne⟩ := h ho.symm
  exact ⟨mergesWith_symm hm, hne.symm⟩

theorem contains_iff {a : Nat} : r.contains a = true ↔
    r.start ≤ a ∧ a < r.stop ∧ select a r.masks = r.intlvMatch := by
  simp [AddrRange.contains, and_assoc]

theorem Separate.disjoint (h : Separate r s) (a : Nat) :
    ¬ (r.contains a = true ∧ s.contains a = true) := by
  rintro ⟨hr, hs⟩
  obtain ⟨hr₁, hr₂, hr₃⟩ := contains_iff.1 hr
  obtain ⟨hs₁, hs₂, hs₃⟩ := contains_iff.1 hs
  obtain ⟨hm, hne⟩ := h ⟨by omega, by omega⟩
  obtain ⟨-, -, hmasks⟩ := mergesWith_iff.1 hm
  exact hne (by rw [← hr₃, ← hs₃, hmasks])

theorem Valid.plain_match (h : Valid r) (hr : r.masks = []) : r.intlvMatch = 0 := by
  have := h.2.2
  rw [hr] at this
  simpa using this

theorem intersects_plain (hr : r.masks = []) (hs : s.masks = []) (ho : Overlap r s) :
    r.intersects s = .ok true := by
  obtain ⟨h₁, h₂⟩ := ho
  have hn : ¬ (r.start ≥ s.stop ∨ r.stop ≤ s.start) := by omega
  simp [AddrRange.intersects, hn, AddrRange.interleaved, hr, hs]

theorem isSubset_plain (hr : r.masks = []) (hs : s.masks = []) :
    r.isSubset s = .ok (r.start ≥ s.start && r.stop ≤ s.stop) := by
  simp [AddrRange.isSubset, AddrRange.interleaved, hr, hs]

/-- A plain range fits in a stripe if its ends do and it is no longer than a segment of it. -/
theorem isSubset_striped (hr : r.masks = []) (hs : s.masks ≠ []) (hc : s.combinedMask ≠ 0) :
    r.isSubset s = .ok ((s.contains r.start && s.contains ((r.stop + (2 ^ 64 - 1)) % 2 ^ 64)) &&
      r.size ≤ 1 <<< ctz64 s.combinedMask) := by
  have hi : s.interleaved = true := by simp [AddrRange.interleaved, hs]
  unfold AddrRange.isSubset
  rw [if_neg (by simp [AddrRange.interleaved, hr]), if_pos hi]
  split
  · rename_i hends
    simp only [AddrRange.granularity, hi, hc, if_true, if_false, ok_bind, hends, Bool.true_and]
  · rename_i hends
    simp only [hends, Bool.false_and]

theorem isSubset_total (hr : r.masks = []) (hs : Granular s) : ∃ b, r.isSubset s = .ok b := by
  by_cases hp : s.masks = []
  · exact ⟨_, isSubset_plain hr hp⟩
  · exact ⟨_, isSubset_striped hr hp (hs.resolve_left hp)⟩

/-- The range of one address is a subset of the ranges that contain it, unless its end wraps. -/
theorem isSubset_point {a : Nat} (ha : a < 2 ^ 64 - 1) (hv : Valid s) (hs : Granular s) :
    (rangeSize a 1).isSubset s = .ok (s.contains a) := by
  have hstop : (a + 1) % 2 ^ 64 = a + 1 := Nat.mod_eq_of_lt (by omega)
  by_cases hp : s.masks = []
  · have hsel : select a s.masks = s.intlvMatch := by
      rw [hp, hv.plain_match hp]
      rfl
    rw [isSubset_plain rfl hp]
    simp only [AddrRange.contains, rangeSize, hstop, hsel, decide_true, Bool.and_true, ge_iff_le,
      Nat.succ_le_iff]
  · have hlast : (a + 1 + (2 ^ 64 - 1)) % 2 ^ 64 = a := by omega
    have hsize : (rangeSize a 1).size ≤ 1 <<< ctz64 s.combinedMask := by
      have hone : (rangeSize a 1).size = 1 := by
        simp only [AddrRange.size, rangeSize, hstop, length_nil, Nat.shiftRight_zero]
        omega
      rw [hone, Nat.one_shiftLeft]
      exact Nat.one_le_two_pow
    rw [isSubset_striped rfl hp (hs.resolve_left hp), decide_eq_true hsize]
    simp only [rangeSize, hstop, hlast, Bool.and_self, Bool.and_true]

end

/-! ## One lookup -/

section

variable {V : Type} {N : Nat} {m m' : AddrRangeMap V} {r : AddrRange}
  {cond : AddrRange → Except Fault Bool} {p : Entry V → Bool} {o : Option (Entry V)}
  {cache : List Nat} {it : Nat}

/-- Every iterator in the cache denotes an entry of the tree. -/
def CacheValid (m : AddrRangeMap V) : Prop := ∀ it ∈ m.cache, ∃ e ∈ m.tree, e.id = it

/-- The condition has the value `p` on the entries of the list. -/
def Decided (cond : AddrRange → Except Fault Bool) (p : Entry V → Bool) (l : List (Entry V)) :
    Prop := ∀ e ∈ l, cond e.range = .ok (p e)

theorem deref_ok (h : ∃ e ∈ m.tree, e.id = it) : ∃ e ∈ m.tree, e.id = it ∧ m.deref it = .ok e := by
  obtain ⟨e, he, hid⟩ := h
  unfold AddrRangeMap.deref
  cases hf : m.tree.find? fun e => e.id = it with
  | none => exact absurd (find?_eq_none.1 hf e he) (by simp [hid])
  | some e' => exact ⟨e', mem_of_find?_eq_some hf, by simpa using find?_some hf, rfl⟩

theorem findCached_ok (hd : Decided cond p m.tree) (hc : ∀ it ∈ cache, ∃ e ∈ m.tree, e.id = it) :
    ∃ o, m.findCached cond cache = .ok o ∧
      ∀ e, o = some e → e ∈ m.tree ∧ p e = true ∧ e.id ∈ cache := by
  induction cache with
  | nil => exact ⟨none, rfl, by simp⟩
  | cons it cache ih =>
    obtain ⟨e, he, hid, hderef⟩ := deref_ok (hc it mem_cons_self)
    obtain ⟨o, ho, hsome⟩ := ih fun i hi => hc i (mem_cons_of_mem _ hi)
    simp only [findCached, hderef, ok_bind, hd e he]
    split
    · rename_i hp
      refine ⟨some e, rfl, ?_⟩
      rintro e' ⟨⟩
      exact ⟨he, hp, by simp [hid]⟩
    · refine ⟨o, ho, fun e' he' => ?_⟩
      obtain ⟨h₁, h₂, h₃⟩ := hsome e' he'
      exact ⟨h₁, h₂, mem_cons_of_mem _ h₃⟩

/-- The loop over the entries below finds an entry if those that it passes before all merge
with it. -/
theorem walkBack_ok {l : List (Entry V)} (hd : Decided cond p l) :
    ∃ o, walkBack cond l = .ok o ∧ (∀ e, o = some e → e ∈ l ∧ p e = true) ∧
      ∀ l₁ s l₂, l = l₁ ++ s :: l₂ → p s = true →
        (∀ t ∈ l₁, t.range.mergesWith s.range = true) → o ≠ none := by
  induction l with
  | nil => exact ⟨none, rfl, by simp, by simp⟩
  | cons i rest ih =>
    obtain ⟨o, ho, hsome, hnone⟩ := ih fun e he => hd e (mem_cons_of_mem _ he)
    have hi := hd i mem_cons_self
    by_cases hp : p i = true
    · refine ⟨some i, by simp [walkBack, hi, hp], ?_, by simp⟩
      rintro e ⟨⟩
      exact ⟨mem_cons_self, hp⟩
    · -- an entry that is found further down is not `i`, so `i` merges with it
      have hlater : ∀ l₁ s l₂, i :: rest = l₁ ++ s :: l₂ → p s = true →
          (∀ t ∈ l₁, t.range.mergesWith s.range = true) →
          ∃ l₁', rest = l₁' ++ s :: l₂ ∧ i.range.mergesWith s.range = true ∧
            ∀ t ∈ l₁', t.range.mergesWith s.range = true := by
        intro l₁ s l₂ heq hs hm
        rcases cons_eq_append_iff.1 heq with ⟨-, heq⟩ | ⟨l₁', rfl, hrest⟩
        · cases heq
          exact absurd hs hp
        · exact ⟨l₁', hrest, forall_mem_cons.1 hm⟩
      cases rest with
      | nil =>
        refine ⟨none, by simp [walkBack, hi, hp], by simp, ?_⟩
        intro l₁ s l₂ heq hs hm
        obtain ⟨l₁', hrest, -⟩ := hlater l₁ s l₂ heq hs hm
        simp at hrest
      | cons next rest =>
        by_cases hmerge : next.range.mergesWith i.range = true
        · refine ⟨o, ?_, fun e he => ?_, ?_⟩
          · rw [← ho]
            simp [walkBack, hi, hp, hmerge]
          · exact ⟨mem_cons_of_mem _ (hsome e he).1, (hsome e he).2⟩
          · intro l₁ s l₂ heq hs hm
            obtain ⟨l₁', hrest, -, hm'⟩ := hlater l₁ s l₂ heq hs hm
            exact hnone l₁' s l₂ hrest hs hm'
        · refine ⟨none, by simp [walkBack, hi, hp, hmerge], by simp, ?_⟩
          intro l₁ s l₂ heq hs hm
          obtain ⟨l₁', hrest, his, hm'⟩ := hlater l₁ s l₂ heq hs hm
          -- the next entry is the one looked for, or merges with it, as `i` does
          have hnext : next.range.mergesWith s.range = true := by
            cases l₁' with
            | nil =>
              cases hrest
              exact mergesWith_iff.2 ⟨rfl, rfl, rfl⟩
            | cons t l₁' =>
              cases hrest
              exact hm' _ mem_cons_self
          exact absurd (mergesWith_trans hnext (mergesWith_symm his)) hmerge

/-- One call of `find` on `m`, for the range `r` and a condition with the value `p`. -/
structure Lookup (N : Nat) (m : AddrRangeMap V) (r : AddrRange) (p : Entry V → Bool)
    (m' : AddrRangeMap V) (o : Option (Entry V)) : Prop where
  tree : m'.tree = m.tree
  nextId : m'.nextId = m.nextId
  cached : CacheValid m'
  bounded : m.cache.length ≤ N → m'.cache.length ≤ N
  found : ∀ e, o = some e → e ∈ m.tree ∧ p e = true
  next : o = none → ∀ e rest, above r m.tree = e :: rest → p e = false
  walked : o = none → ∀ l₁ s l₂, below r m.tree = l₁ ++ s :: l₂ → p s = true →
    ¬ ∀ t ∈ l₂, t.range.mergesWith s.range = true

theorem below_append_above (r : AddrRange) (l : List (Entry V)) : below r l ++ above r l = l :=
  takeWhile_append_dropWhile

theorem findInTree_ok (hd : Decided cond p m.tree) :
    ∃ o, m.findInTree r cond = .ok o ∧ (∀ e, o = some e → e ∈ m.tree ∧ p e = true) ∧
      (o = none → ∀ e rest, above r m.tree = e :: rest → p e = false) ∧
      (o = none → ∀ l₁ s l₂, below r m.tree = l₁ ++ s :: l₂ → p s = true →
        ¬ ∀ t ∈ l₂, t.range.mergesWith s.range = true) := by
  have hbelow : ∀ e ∈ (below r m.tree).reverse, e ∈ m.tree := by
    intro e he
    exact takeWhile_subset _ (mem_reverse.1 he)
  obtain ⟨o, ho, hsome, hnone⟩ := walkBack_ok
    fun e he => hd e (hbelow e he)
  have hwalked : o = none → ∀ l₁ s l₂, below r m.tree = l₁ ++ s :: l₂ → p s = true →
      ¬ ∀ t ∈ l₂, t.range.mergesWith s.range = true := by
    intro hon l₁ s l₂ heq hs hm
    refine hnone l₂.reverse s l₁.reverse (by simp [heq]) hs ?_ hon
    exact fun t ht => hm t (mem_reverse.1 ht)
  have hfound : ∀ e, o = some e → e ∈ m.tree ∧ p e = true :=
    fun e he => ⟨hbelow e (hsome e he).1, (hsome e he).2⟩
  cases ha : above r m.tree with
  | nil => exact ⟨o, by simp [findInTree, ha, ho], hfound, by simp, hwalked⟩
  | cons next rest =>
    have hmem : next ∈ m.tree := dropWhile_subset (fun e => !r.lt e.range) <| by
      rw [← above, ha]
      exact mem_cons_self
    by_cases hp : p next = true
    · refine ⟨some next, by simp [findInTree, ha, hd next hmem, hp], ?_, by simp, by simp⟩
      rintro e ⟨⟩
      exact ⟨hmem, hp⟩
    · refine ⟨o, by simp [findInTree, ha, hd next hmem, hp, ho], hfound, ?_, hwalked⟩
      rintro - e rest' ⟨⟩
      simpa using hp

theorem addNewEntryToCache_tree (it : Nat) :
    (m.addNewEntryToCache N it).tree = m.tree ∧ (m.addNewEntryToCache N it).nextId = m.nextId := by
  unfold addNewEntryToCache
  split_ifs <;> exact ⟨rfl, rfl⟩

theorem mem_addNewEntryToCache {i : Nat} (h : i ∈ (m.addNewEntryToCache N it).cache) :
    i = it ∨ i ∈ m.cache := by
  unfold addNewEntryToCache at h
  split_ifs at h with _ _ _
  · exact (mem_cons.1 h).imp_right fun h => dropLast_subset _ h
  · rcases mem_append.1 h with h | h
    · exact .inr (dropLast_subset _ h)
    · exact .inl (mem_singleton.1 h)
  · exact mem_cons.1 h
  · exact .inr h

theorem length_addNewEntryToCache (it : Nat) (h : m.cache.length ≤ N) :
    (m.addNewEntryToCache N it).cache.length ≤ N := by
  unfold addNewEntryToCache
  split_ifs
  · simp only [length_cons, length_dropLast]
    omega
  · simp only [length_append, length_dropLast, length_singleton]
    omega
  · simp only [length_cons]
    omega
  · exact h

variable {e : Entry V}

theorem CacheValid.add (h : CacheValid m) (he : e ∈ m.tree) :
    CacheValid (m.addNewEntryToCache N e.id) := by
  intro it hit
  rw [(addNewEntryToCache_tree e.id).1]
  rcases mem_addNewEntryToCache hit with rfl | hit
  · exact ⟨e, he, rfl⟩
  · exact h it hit

/-- **One lookup.** With a valid cache and a condition that does not fault, `find` returns. -/
theorem find_lookup (N : Nat) (r : AddrRange) (hc : CacheValid m) (hd : Decided cond p m.tree) :
    ∃ m' o, m.find N r cond = .ok (m', o) ∧ Lookup N m r p m' o := by
  obtain ⟨c, hcached, hhit⟩ := findCached_ok hd hc
  simp only [find, hcached, ok_bind]
  cases c with
  | some e =>
    obtain ⟨he, hp, hmem⟩ := hhit e rfl
    refine ⟨_, _, rfl, rfl, rfl, ?_, ?_, ?_, by simp, by simp⟩
    · exact forall_mem_cons.2 ⟨⟨e, he, rfl⟩, fun it hit => hc it (mem_of_mem_erase hit)⟩
    · have := length_pos_of_mem hmem
      rw [length_cons, length_erase_of_mem hmem]
      omega
    · rintro e' ⟨⟩
      exact ⟨he, hp⟩
  | none =>
    obtain ⟨o, htree, hfound, hnext, hwalked⟩ := findInTree_ok (r := r) hd
    simp only [htree, ok_bind]
    cases o with
    | some e =>
      obtain ⟨ht, hn⟩ := addNewEntryToCache_tree e.id
      exact ⟨_, _, rfl, ht, hn, hc.add (hfound e rfl).1, length_addNewEntryToCache e.id, hfound,
        hnext, hwalked⟩
    | none => exact ⟨_, _, rfl, rfl, rfl, hc, id, hfound, hnext, hwalked⟩

/-! ## What a map keeps -/

structure Stored (N : Nat) (m : AddrRangeMap V) : Prop where
  sorted : InOrder (fun e : Entry V => key e.range) m.tree
  separate : m.tree.Pairwise fun e e' => Separate e.range e'.range
  valid : ∀ e ∈ m.tree, Valid e.range
  granular : ∀ e ∈ m.tree, Granular e.range
  ids : m.tree.Pairwise fun e e' => e.id ≠ e'.id
  fresh : ∀ e ∈ m.tree, e.id < m.nextId
  cached : CacheValid m
  bounded : m.cache.length ≤ N

def content (m : AddrRangeMap V) : AddrRangeMap V := { m with cache := [] }

theorem Lookup.stored (h : Stored N m) (hl : Lookup N m r p m' o) :
    Stored N m' ∧ content m' = content m := by
  obtain ⟨tree, cache, nextId⟩ := m'
  obtain ⟨rfl, rfl, hcached, hbounded, -⟩ := hl
  exact ⟨{ h with cached := hcached, bounded := hbounded h.bounded }, rfl⟩

/-- Taking entries out keeps the map sound, if it leaves no iterator of theirs in the cache. -/
theorem Stored.shrink (h : Stored N m) {tree : List (Entry V)}
    (ht : tree.Sublist m.tree) (hl : cache.length ≤ m.cache.length)
    (hc : ∀ it ∈ cache, ∃ e ∈ tree, e.id = it) : Stored N { m with tree, cache } :=
  ⟨h.sorted.sublist ht, h.separate.sublist ht, fun e he => h.valid e (ht.subset he),
    fun e he => h.granular e (ht.subset he), h.ids.sublist ht, fun e he => h.fresh e (ht.subset he),
    hc, hl.trans h.bounded⟩

theorem Stored.separate_of_ne (h : Stored N m) {e' : Entry V} (he : e ∈ m.tree)
    (he' : e' ∈ m.tree) (hne : e ≠ e') : Separate e.range e'.range :=
  have : Std.Symm fun e e' : Entry V => Separate e.range e'.range := ⟨fun _ _ hs => hs.symm⟩
  h.separate.forall he he' hne

theorem below_eq (r : AddrRange) (l : List (Entry V)) :
    below r l = upTo (fun e : Entry V => key e.range) (key r) l := by
  simp only [below, upTo, not_lt_eq_key_le]

theorem above_eq (r : AddrRange) (l : List (Entry V)) :
    above r l = aboveKey (fun e : Entry V => key e.range) (key r) l := by
  simp only [above, aboveKey, not_lt_eq_key_le]

section
variable (h : Stored N m) {s : Entry V}
include h

theorem Stored.mem_below : e ∈ below r m.tree ↔ e ∈ m.tree ∧ key e.range ≤ key r := by
  rw [below_eq, mem_upTo h.sorted]

theorem Stored.mem_above : e ∈ above r m.tree ↔ e ∈ m.tree ∧ key r < key e.range := by
  rw [above_eq, Core.mem_above h.sorted]

theorem Stored.below_pair {l₁ l₂ : List (Entry V)} {t : Entry V}
    (heq : below r m.tree = l₁ ++ s :: l₂) (ht : t ∈ l₂) :
    s.range.start ≤ t.range.start ∧ Separate s.range t.range := by
  have hsub : List.Sublist (s :: l₂) m.tree := by
    refine .trans ?_ (takeWhile_sublist fun e => !r.lt e.range)
    rw [← below, heq]
    exact sublist_append_right _ _
  have hsorted := (pairwise_cons.1 (h.sorted.sublist hsub)).1 t ht
  exact ⟨start_le_of_key hsorted.le, (pairwise_cons.1 (h.separate.sublist hsub)).1 t ht⟩

/-- A lookup that returns `end()` has missed no entry up to the cut that reaches the start of
the argument: the entries after it start in it, so they merge with it. -/
theorem Lookup.below_complete (hl : Lookup N m r p m' none)
    (hs : s ∈ below r m.tree) (hstop : r.start < s.range.stop) : p s = false := by
  obtain ⟨l₁, l₂, heq⟩ := append_of_mem hs
  refine Bool.eq_false_iff.2 fun hp => hl.walked rfl l₁ s l₂ heq hp fun t ht => ?_
  obtain ⟨hst, hsep⟩ := h.below_pair heq ht
  obtain ⟨htree, hkey⟩ := h.mem_below.1 (heq ▸ mem_append_right _ (mem_cons_of_mem _ ht))
  have htr : t.range.start ≤ r.start := start_le_of_key hkey
  have hvt := (h.valid t htree).1
  exact mergesWith_symm (hsep ⟨by omega, by omega⟩).1

/-- If there is an entry above the cut, the lookup has tried one that starts no later. -/
theorem Lookup.above_tried (hl : Lookup N m r p m' none) (hs : s ∈ above r m.tree) :
    ∃ next ∈ m.tree, key r < key next.range ∧ next.range.start ≤ s.range.start ∧
      p next = false := by
  obtain ⟨next, rest, heq⟩ := exists_cons_of_ne_nil (ne_nil_of_mem hs)
  obtain ⟨hnext, hkey⟩ := h.mem_above.1 (heq ▸ mem_cons_self)
  refine ⟨next, hnext, hkey, ?_, hl.next rfl next rest heq⟩
  rw [heq] at hs
  rcases mem_cons.1 hs with rfl | hs
  · exact le_rfl
  · have hsub : List.Sublist (next :: rest) m.tree := heq ▸ dropWhile_sublist _
    exact start_le_of_key ((pairwise_cons.1 (h.sorted.sublist hsub)).1 s hs).le

theorem Lookup.point_complete {a : Nat}
    (hl : Lookup N m (rangeSize a 1) (fun e => e.range.contains a) m' none) :
    ∀ e ∈ m.tree, e.range.contains a = false := by
  intro s hs
  by_contra hc
  obtain ⟨hstart, hstop, -⟩ := contains_iff.1 (Bool.not_eq_false _ ▸ hc)
  exact hc (hl.below_complete h (h.mem_below.2 ⟨hs, key_le_of_start rfl hstart⟩) hstop)

end

end

end Gem5Cxl.L3.RangeLookup
