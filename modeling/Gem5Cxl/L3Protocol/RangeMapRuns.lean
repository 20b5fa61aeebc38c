import Gem5Cxl.L3Protocol.RangeLookup

/-!
# The lookup cache of an address range map is only an optimisation

A run is any sequence of the map's calls, made to a map with a cache of at most
`N` iterators and to one without a cache (`Maps`). Both are compared with a map
that scans its entries (`scanCall`, `scan`).

* `Stored.insert_decides`: an insertion is refused exactly if some entry
  intersects the range.
* `Stored.call`: a call keeps `Stored`, does not fault and changes the entries
  as it changes those of the scanned map.
* `lookups_exact`: in every run whose calls all meet `Meets`, cached iterators
  are valid, no address is in two entries, and both maps return for an address
  what a scan returns.

`Meets` is needed. `erase(first, last)` leaves the iterators of the entries after
`first` in the cache; the range of the last address ends at 0 and is a subset of
every plain range; `intersects` answers for a range of size 1 by its start alone;
and a lookup goes back from one stored range to the one before only if the two are
stripes of one interleaving, so that a plain range hides the stripe whose span it
is stored in (`lookups_go_wrong`).
-/
namespace Gem5Cxl.L3.RangeMapRuns

open Core L1 L2.RangeMap L3.RangeLookup List
open L2.RangeMap.AddrRangeMap (below above)

inductive Call (V : Type)
  | insert (r : AddrRange) (d : V)
  | erase (p : Nat)
  | eraseRange (first last : Option Nat)
  | clear
  | contains (a : Nat)
  | containsRange (r : AddrRange)
  | intersects (r : AddrRange)
deriving DecidableEq, Repr

section

variable {V : Type} {s : AddrRange} {e : Entry V}

def call (N : Nat) (m : AddrRangeMap V) : Call V → Except Fault (AddrRangeMap V)
  | .insert r d => do
    let (m, _) ← m.insert N r d
    .ok m
  | .erase p => m.eraseOne p
  | .eraseRange first last => m.eraseRange first last
  | .clear => .ok m.clear
  | .contains a => do
    let (m, _) ← m.contains N a
    .ok m
  | .containsRange r => do
    let (m, _) ← m.containsRange N r
    .ok m
  | .intersects r => do
    let (m, _) ← m.intersects N r
    .ok m

/-- `AddrRange::intersects` gives an answer for every entry. -/
def Answers (m : AddrRangeMap V) (r : AddrRange) : Prop :=
  ∀ e ∈ m.tree, (r.intersects e.range).isOk = true
  deriving Decidable

/-- `[first, last)` is a range of iterators of the map. -/
def IteratorRange (m : AddrRangeMap V) : Option Nat → Option Nat → Prop
  | none, last => last = none
  | some p, last => (∃ e ∈ m.tree, e.id = p) ∧
    (last ≠ none → ∃ e ∈ m.startingAt p, some e.id = last)

instance (m : AddrRangeMap V) (first last : Option Nat) :
    Decidable (IteratorRange m first last) := by
  cases first <;> dsimp only [IteratorRange] <;> infer_instance

/-- Ranges are not empty and can be tested for intersection, iterators are the map's own. -/
def enabled (m : AddrRangeMap V) : Call V → Prop
  | .insert r _ => Valid r ∧ Answers m r
  | .erase p => ∃ e ∈ m.tree, e.id = p
  | .eraseRange first last => IteratorRange m first last
  | .clear => True
  | .contains a => a < 2 ^ 64
  | .containsRange r => Valid r ∧ Answers m r
  | .intersects r => Valid r ∧ Answers m r

instance (m : AddrRangeMap V) (c : Call V) : Decidable (enabled m c) := by
  cases c <;> dsimp only [enabled] <;> infer_instance

/-- The calls that keep the map sound. -/
def Meets (m : AddrRangeMap V) : Call V → Prop
  | .insert r _ => Granular r ∧ ∀ e ∈ m.tree, Overlap r e.range → Alike r e.range
  | .eraseRange (some p) last => ∀ e ∈ m.between p last, e.id ∈ m.cache → e.id = p
  | .contains a => a ≠ 2 ^ 64 - 1
  | .containsRange r => r.masks = []
  | _ => True

instance (m : AddrRangeMap V) (c : Call V) : Decidable (Meets m c) := by
  unfold Meets
  split <;> infer_instance

/-- The same calls made to a map with a cache and to one without. -/
structure Maps (V : Type) where
  map : AddrRangeMap V := {}
  uncached : AddrRangeMap V := {}

def machine (V : Type) (N : Nat) : Machine (Maps V) (Call V) Fault where
  init s := s = {}
  enabled s c := enabled s.map c
  step s c := do
    let map ← call N s.map c
    let uncached ← call 0 s.uncached c
    .ok { map, uncached }

/-! ## What is asked -/

def scan (tree : List (Entry V)) (a : Nat) : Option (Entry V) :=
  tree.find? fun e => e.range.contains a

structure Exact (N : Nat) (s : Maps V) : Prop where
  cached : CacheValid s.map
  disjoint : s.map.tree.Pairwise fun e e' =>
    ∀ a, ¬ (e.range.contains a = true ∧ e'.range.contains a = true)
  lookup : ∀ a, a < 2 ^ 64 - 1 → ∃ m, s.map.contains N a = .ok (m, scan s.map.tree a)
  uncached : ∀ a, a < 2 ^ 64 - 1 → ∃ m, s.uncached.contains 0 a = .ok (m, scan s.map.tree a)

/-! ## The scanned map -/

def holds : Except Fault Bool → Bool
  | .ok b => b
  | .error _ => false

/-- A call to a map that has no cache and scans all its entries. -/
def scanCall (m : AddrRangeMap V) : Call V → AddrRangeMap V
  | .insert r d => if m.tree.any fun e => holds (r.intersects e.range) then m else (m.treeInsert r d).1
  | .erase p => { m with tree := m.tree.filter fun e => e.id ≠ p }
  | .eraseRange (some p) last =>
    { m with tree := m.tree.takeWhile (fun e => e.id ≠ p) ++
        (m.startingAt p).dropWhile fun e => some e.id ≠ last }
  | .clear => { m with tree := [] }
  | _ => m

variable {N : Nat} {m m' : AddrRangeMap V} {r : AddrRange} {p : Entry V → Bool}
  {o : Option (Entry V)}

/-! ## Lookups -/

theorem decided_isSubset (h : Stored N m) (hr : r.masks = []) :
    Decided (fun r1 => r.isSubset r1) (fun e => holds (r.isSubset e.range)) m.tree := by
  intro e he
  obtain ⟨b, hb⟩ := isSubset_total hr (h.granular e he)
  simp only [hb, holds]

theorem decided_intersects (h : Answers m r) :
    Decided (fun r1 => r.intersects r1) (fun e => holds (r.intersects e.range)) m.tree := by
  intro e he
  have hok := h e he
  cases hi : r.intersects e.range with
  | error f => simp [hi, Except.isOk, Except.toBool] at hok
  | ok b => simp only [hi, holds]

theorem contains_eq (h : Stored N m) {a : Nat} (ha : a < 2 ^ 64 - 1) :
    ∃ m', m.contains N a = .ok (m', scan m.tree a) ∧ Stored N m' ∧ content m' = content m := by
  have hd : Decided ((rangeSize a 1).isSubset) (fun e : Entry V => e.range.contains a)
      m.tree := fun e he => isSubset_point ha (h.valid e he) (h.granular e he)
  obtain ⟨m', o, hfind, hl⟩ := find_lookup N (rangeSize a 1) h.cached hd
  have ho : o = scan m.tree a := by
    cases o with
    | none =>
      refine (find?_eq_none.2 fun e he => ?_).symm
      simp [hl.point_complete h e he]
    | some e =>
      obtain ⟨he, hc⟩ := hl.found e rfl
      cases hscan : scan m.tree a with
      | none => exact absurd hc (find?_eq_none.1 hscan e he)
      | some e' =>
        -- two different entries do not both contain the address
        by_contra hne
        have hne' : e ≠ e' := fun heq => hne (congrArg some heq)
        exact (h.separate_of_ne he (mem_of_find?_eq_some hscan) hne').disjoint a
          ⟨hc, find?_some (p := fun e : Entry V => e.range.contains a) hscan⟩
  obtain ⟨hs, hcontent⟩ := Lookup.stored h hl
  exact ⟨m', ho ▸ hfind, hs, hcontent⟩

/-! ## Insertions -/

theorem intersects_apart (h : ¬ Overlap r s) : r.intersects s = .ok false := by
  have : r.start ≥ s.stop ∨ r.stop ≤ s.start := by
    simp only [Overlap, not_and_or, not_lt] at h
    exact h
  rw [AddrRange.intersects, if_pos this]

/-- The answer of `intersects` for two stripes of one interleaving depends on the other stripe
only through its match value. -/
theorem intersects_stripe (hv : Valid r) (hr : r.masks ≠ []) (hs : r.mergesWith s = true) :
    r.intersects s =
      .ok (if r.size = 1 then r.contains r.start else r.intlvMatch = s.intlvMatch) := by
  obtain ⟨hstart, hstop, hmasks⟩ := mergesWith_iff.1 hs
  have hsize : s.size = r.size := by rw [AddrRange.size, AddrRange.size, hstart, hstop, hmasks]
  have hlt := hv.1
  have hn : ¬ (r.start ≥ s.stop ∨ r.stop ≤ s.start) := by omega
  have hi : ¬ ((!r.interleaved && !s.interleaved) = true) := by simp [AddrRange.interleaved, hr]
  rw [AddrRange.intersects, if_neg hn, if_neg hi, hsize, ← hstart]
  by_cases hone : r.size = 1
  · simp only [if_pos hone]
  · simp only [if_neg hone, if_pos hs]

/-- If the lookup before an insertion returns `end()`, no entry intersects the range. -/
theorem insert_complete (h : Stored N m) (hv : Valid r)
    (halike : ∀ e ∈ m.tree, Overlap r e.range → Alike r e.range)
    (hl : Lookup N m r (fun e => holds (r.intersects e.range)) m' none) :
    ∀ e ∈ m.tree, holds (r.intersects e.range) = false := by
  intro s hs
  by_cases ho : Overlap r s.range
  swap
  · rw [intersects_apart ho, holds]
  have hcut : s ∈ below r m.tree ++ above r m.tree := by rwa [below_append_above]
  rcases mem_append.1 hcut with hbelow | habove
  · exact hl.below_complete h hbelow ho.1
  obtain ⟨next, hnext, hkey, hstart, htried⟩ := hl.above_tried h habove
  have hrn : r.start ≤ next.range.start := start_le_of_key hkey.le
  have hvn := (h.valid next hnext).1
  have hon : Overlap r next.range := ⟨by omega, by have := ho.2; omega⟩
  by_cases hr : r.masks = []
  · -- the entry that was tried is plain too, and so intersects `r`
    have hplain : next.range.masks = [] := by
      rcases halike next hnext hon with ha | ha
      · exact ha.2
      · rw [← (mergesWith_iff.1 ha).2.2, hr]
    simp only [intersects_plain hr hplain hon, holds] at htried
    cases htried
  · -- both are stripes of the interleaving of `r`, and above it
    have hmerge : ∀ e ∈ m.tree, Overlap r e.range → r.mergesWith e.range = true :=
      fun e he ho => (halike e he ho).resolve_left fun ha => hr ha.1
    have hms := hmerge s hs ho
    simp only [intersects_stripe hv hr (hmerge next hnext hon), holds] at htried
    rw [intersects_stripe hv hr hms]
    split
    · rename_i hone
      rwa [if_pos hone] at htried
    · refine decide_eq_false fun heq => ?_
      exact absurd (key_eq_of_merges hms heq) (h.mem_above.1 habove).2.ne

/-- What stands between `below` and `above` is related to all, if it is to each entry. -/
theorem pairwise_insert {R : Entry V → Entry V → Prop} (hsymm : ∀ {x y}, R x y → R y x)
    (h : m.tree.Pairwise R) (he : ∀ x ∈ m.tree, R e x) :
    (below r m.tree ++ e :: above r m.tree).Pairwise R := by
  rw [pairwise_middle hsymm, below_append_above]
  exact pairwise_cons.2 ⟨he, h⟩

theorem mem_insert {x : Entry V} :
    x ∈ below r m.tree ++ e :: above r m.tree ↔ x = e ∨ x ∈ m.tree := by
  rw [perm_middle.mem_iff, below_append_above, mem_cons]

/-- A range that may be stored with every entry, but those with its key, is put in the tree
unless there is one with its key. -/
theorem treeInsert_stored (h : Stored N m) (d : V) (hv : Valid r) (hg : Granular r)
    (hsep : ∀ e ∈ m.tree, key e.range ≠ key r → Separate r e.range) :
    Stored N (m.treeInsert r d).1 := by
  unfold AddrRangeMap.treeInsert
  split
  · exact h
  · rename_i hnew
    have hkey : ∀ e ∈ m.tree, key e.range ≠ key r := by
      intro e he heq
      have := find?_eq_none.1 hnew e he
      simp [not_lt_eq_key_le, heq] at this
    refine ⟨?_, ?_, ?_, ?_, ?_, ?_, ?_, h.bounded⟩
    · rw [below_eq, above_eq]
      exact h.sorted.insert (y := { id := m.nextId, range := r, val := d }) hkey
    · exact pairwise_insert (fun hs => hs.symm) h.separate fun e he => hsep e he (hkey e he)
    · intro e he
      rcases mem_insert.1 he with rfl | he
      · exact hv
      · exact h.valid e he
    · intro e he
      rcases mem_insert.1 he with rfl | he
      · exact hg
      · exact h.granular e he
    · exact pairwise_insert (fun hne => hne.symm) h.ids fun e he => (h.fresh e he).ne'
    · intro e he
      rcases mem_insert.1 he with rfl | he
      · exact Nat.lt_succ_self _
      · exact (h.fresh e he).trans (Nat.lt_succ_self _)
    · intro it hit
      obtain ⟨e, he, hid⟩ := h.cached it hit
      exact ⟨e, mem_insert.2 (.inr he), hid⟩

theorem content_treeInsert (m : AddrRangeMap V) (r : AddrRange) (d : V) :
    content (m.treeInsert r d).1 = ((content m).treeInsert r d).1 := by
  unfold AddrRangeMap.treeInsert
  simp only [content]
  split <;> rfl

/-- What two calls have in common that are made to maps with the same entries. -/
def Follows (N : Nat) (m : AddrRangeMap V) (c : Call V) : Prop :=
  ∃ m', call N m c = .ok m' ∧ Stored N m' ∧ content m' = scanCall (content m) c

/-- An insertion is refused exactly if some entry intersects the range. -/
theorem insert_follows (h : Stored N m) {d : V} (he : enabled m (.insert r d))
    (hg : Meets m (.insert r d)) : Follows N m (.insert r d) := by
  obtain ⟨hv, hans⟩ := he
  obtain ⟨hgran, halike⟩ := hg
  obtain ⟨m₁, o, hfind, hl⟩ := find_lookup N r h.cached (decided_intersects hans)
  have hint : m.intersects N r = .ok (m₁, o) := hfind
  obtain ⟨hs, hcontent⟩ := hl.stored h
  simp only [Follows, call, AddrRangeMap.insert, hint, ok_bind]
  cases o with
  | some e =>
    obtain ⟨hmem, hp⟩ := hl.found e rfl
    have hany : ((content m).tree.any fun e => holds (r.intersects e.range)) = true :=
      any_eq_true.2 ⟨e, hmem, hp⟩
    exact ⟨m₁, rfl, hs, by rw [scanCall, if_pos hany, hcontent]⟩
  | none =>
    have hnone := insert_complete h hv halike hl
    have hany : ¬ ((content m).tree.any fun e => holds (r.intersects e.range)) = true := by
      rw [Bool.not_eq_true, any_eq_false]
      exact fun e he => by simpa using hnone e he
    refine ⟨_, rfl, treeInsert_stored hs d hv hgran ?_, ?_⟩
    · intro e he hkey ho
      rw [hl.tree] at he
      rcases halike e he ho with ⟨hr, hp⟩ | hm
      · have := hnone e he
        rw [intersects_plain hr hp ho] at this
        cases this
      · exact ⟨hm, fun heq => hkey (key_eq_of_merges hm heq).symm⟩
    · rw [scanCall, if_neg hany, content_treeInsert, hcontent]

/-! ## Removals -/

theorem erase_follows (h : Stored N m) {p : Nat} (he : ∃ e ∈ m.tree, e.id = p) :
    Follows N m (.erase p) := by
  obtain ⟨e, -, -, hderef⟩ := deref_ok he
  simp only [Follows, call, AddrRangeMap.eraseOne, hderef, ok_bind]
  refine ⟨_, rfl, h.shrink filter_sublist (length_filter_le _ _) ?_, rfl⟩
  intro it hit
  obtain ⟨hin, hne⟩ := mem_filter.1 hit
  obtain ⟨e, he, rfl⟩ := h.cached it hin
  exact ⟨e, mem_filter.2 ⟨he, hne⟩, rfl⟩

/-- The loop of `erase(p, q)` takes `p` out of the cache, if it turns at all. -/
theorem foldl_remove {p : Nat} (l : List (Entry V)) (cache : List Nat) :
    let left := l.foldl (fun cache _ => cache.filter (· ≠ p)) cache
    left.length ≤ cache.length ∧ ∀ it ∈ left, it ∈ cache ∧ (l ≠ [] → it ≠ p) := by
  induction l generalizing cache with
  | nil => exact ⟨le_rfl, fun it hit => ⟨hit, absurd rfl⟩⟩
  | cons e l ih =>
    obtain ⟨hlen, hmem⟩ := ih (cache.filter (· ≠ p))
    refine ⟨hlen.trans (length_filter_le _ _), fun it hit => ?_⟩
    obtain ⟨hin, hne⟩ := mem_filter.1 (hmem it hit).1
    exact ⟨hin, fun _ => of_decide_eq_true hne⟩

theorem eraseRange_follows (h : Stored N m) {first last : Option Nat}
    (he : IteratorRange m first last) (hg : Meets m (.eraseRange first last)) :
    Follows N m (.eraseRange first last) := by
  cases first with
  | none =>
    obtain rfl : last = none := he
    exact ⟨m, rfl, h, rfl⟩
  | some p =>
    obtain ⟨hp, hlast⟩ := he
    obtain ⟨e, -, -, hderef⟩ := deref_ok hp
    have hreach : ¬ (last ≠ none ∧ ∀ e ∈ m.startingAt p, some e.id ≠ last) := by
      rintro ⟨hne, hall⟩
      obtain ⟨e, he, hid⟩ := hlast hne
      exact hall e he hid
    have hsplit : m.tree.takeWhile (fun e => e.id ≠ p) ++ m.startingAt p = m.tree :=
      takeWhile_append_dropWhile
    obtain ⟨hlen, hleft⟩ := foldl_remove (m.between p last) m.cache
    simp only [Follows, call, AddrRangeMap.eraseRange, hderef, ok_bind, if_neg hreach]
    refine ⟨_, rfl, h.shrink ?_ hlen ?_, rfl⟩
    · conv_rhs => rw [← hsplit]
      exact (dropWhile_sublist _).append_left _
    · intro it hit
      obtain ⟨hin, hne⟩ := hleft it hit
      obtain ⟨e, he, rfl⟩ := h.cached it hin
      refine ⟨e, ?_, rfl⟩
      rw [← hsplit, ← takeWhile_append_dropWhile
        (l := m.startingAt p)] at he
      simp only [mem_append] at he ⊢
      rcases he with he | he | he
      · exact .inl he
      · -- only `p` itself may be in the cache, and it has been removed
        exact absurd (hg e he hin) (hne (ne_nil_of_mem he))
      · exact .inr he

/-! ## Runs -/

variable {c : Call V}

theorem lookup_follows (h : Stored N m) (hl : Lookup N m r p m' o) (hcall : call N m c = .ok m')
    (hscan : scanCall (content m) c = content m) : Follows N m c := by
  obtain ⟨hs, hcontent⟩ := hl.stored h
  exact ⟨m', hcall, hs, hcontent.trans hscan.symm⟩

/-- **One call.** It does not fault, keeps the map sound and changes the entries as it does in
the scanned map. -/
theorem call_follows (h : Stored N m) (he : enabled m c) (hg : Meets m c) : Follows N m c := by
  cases c with
  | insert r d => exact insert_follows h he hg
  | erase p => exact erase_follows h he
  | eraseRange first last => exact eraseRange_follows h he hg
  | clear => exact ⟨_, rfl, h.shrink (nil_sublist _) (Nat.zero_le _) (by simp), rfl⟩
  | contains a =>
    have ha : a < 2 ^ 64 := he
    have hne : a ≠ 2 ^ 64 - 1 := hg
    obtain ⟨m', hc, hs, hcontent⟩ := contains_eq h (by omega : a < 2 ^ 64 - 1)
    exact ⟨m', by simp only [call, hc, ok_bind], hs, hcontent⟩
  | containsRange r =>
    obtain ⟨m', o, hfind, hl⟩ := find_lookup N r h.cached (decided_isSubset h hg)
    have hc : m.containsRange N r = .ok (m', o) := hfind
    exact lookup_follows h hl (by simp only [call, hc, ok_bind]) rfl
  | intersects r =>
    obtain ⟨m', o, hfind, hl⟩ := find_lookup N r h.cached (decided_intersects he.2)
    have hi : m.intersects N r = .ok (m', o) := hfind
    exact lookup_follows h hl (by simp only [call, hi, ok_bind]) rfl

/-- What may be asked of a map with a cache may be asked of one without that has its entries. -/
theorem uncached_enabled {m₀ : AddrRangeMap V} (hc : content m₀ = content m) (h0 : m₀.cache = [])
    (he : enabled m c) (hg : Meets m c) : enabled m₀ c ∧ Meets m₀ c := by
  obtain ⟨tree₀, cache₀, nextId₀⟩ := m₀
  cases hc
  cases h0
  refine ⟨by cases c <;> exact he, ?_⟩
  match c with
  | .eraseRange (some p) last => exact fun e _ hin => absurd hin not_mem_nil
  | .eraseRange none last => trivial
  | .insert r d => exact hg
  | .contains a => exact hg
  | .containsRange r => exact hg
  | .erase p => trivial
  | .clear => trivial
  | .intersects r => trivial

structure Inv (N : Nat) (s : Maps V) : Prop where
  map : Stored N s.map
  uncached : Stored 0 s.uncached
  same : content s.uncached = content s.map

theorem Inv.init : Inv N ({} : Maps V) := by
  have hstored : ∀ N, Stored N ({} : AddrRangeMap V) := fun N =>
    ⟨.nil, .nil, by simp, by simp, .nil, by simp,
      by simp [CacheValid], Nat.zero_le _⟩
  exact ⟨hstored N, hstored 0, rfl⟩

theorem Inv.step {s : Maps V} (h : Inv N s) (he : enabled s.map c)
    (hg : Meets s.map c) : ∃ s', (machine V N).step s c = .ok s' ∧ Inv N s' := by
  obtain ⟨m', hcall, hs, hcontent⟩ := call_follows h.map he hg
  have hempty : s.uncached.cache = [] := length_eq_zero_iff.1 (Nat.le_zero.1 h.uncached.bounded)
  obtain ⟨he₀, hg₀⟩ := uncached_enabled h.same hempty he hg
  obtain ⟨m₀, hcall₀, hs₀, hcontent₀⟩ := call_follows h.uncached he₀ hg₀
  refine ⟨⟨m', m₀⟩, by simp only [machine, hcall, hcall₀, ok_bind], hs, hs₀, ?_⟩
  rw [hcontent, hcontent₀, h.same]

theorem Inv.exact {s : Maps V} (h : Inv N s) : Exact N s := by
  have htree : (content s.uncached).tree = (content s.map).tree := by rw [h.same]
  refine ⟨h.map.cached, h.map.separate.imp fun hs => hs.disjoint, fun a ha => ?_, fun a ha => ?_⟩
  · obtain ⟨m', hc, -⟩ := contains_eq h.map ha
    exact ⟨m', hc⟩
  · obtain ⟨m', hc, -⟩ := contains_eq h.uncached ha
    refine ⟨m', hc.trans ?_⟩
    rw [show s.uncached.tree = s.map.tree from htree]

/-- **The cache is only an optimisation.** In every run whose calls all meet
`Meets`, no call faults, every cached iterator denotes an entry of the tree, no
address is in two entries, and the map and the one without a cache return for
every address but the last what a scan of the entries returns. -/
theorem lookups_exact (V : Type) (N : Nat) {x : Except Fault (Maps V)}
    (hr : ((machine V N).under fun s c => Meets s.map c).Reachable x) :
    ∃ s, x = .ok s ∧ Exact N s := by
  obtain ⟨s, hs, hi⟩ := Machine.total (I := Inv N)
    (fun s hs => by
      obtain rfl : s = {} := hs
      exact .init)
    (fun s c h he hg => h.step he hg) hr
  exact ⟨s, hs, hi.exact⟩

end

/-! ## Runs on fixed calls -/

/-- Two stripes of an interleaving and a plain range after them, two lookups that fill the
cache, and the removal of all entries from the second stripe on: only that stripe's iterator is
in the cache. -/
theorem lookups_exact_stripes :
    ∃ s, ((machine Nat 2).under fun s c => Meets s.map c).Reachable (.ok s) ∧
      s.map.tree.map (·.id) = [0] ∧ s.map.cache = [0] ∧ Exact 2 s := by
  have hr := fun {y} => Machine.under_decided (M := machine Nat 2)
    (P := fun s c => enabled s.map c ∧ Meets s.map c) (fun _ _ => id)
    [.insert { start := 0, stop := 64, masks := [16], intlvMatch := 0 } 7,
      .insert { start := 0, stop := 64, masks := [16], intlvMatch := 1 } 8,
      .insert { start := 64, stop := 96 } 9,
      .contains 20, .contains 0, .intersects { start := 96, stop := 97 }, .eraseRange (some 1) none]
    (y := y) rfl
  obtain ⟨s, hs, hexact⟩ := lookups_exact Nat 2 (hr rfl)
  cases hs
  exact ⟨_, hr rfl, rfl, rfl, hexact⟩

/-- A stripe of size 1, and a plain range over it. -/
def overlapping : AddrRangeMap Nat where
  tree := [⟨0, { start := 0, stop := 2, masks := [1], intlvMatch := 1 }, 7⟩,
    ⟨1, { start := 1, stop := 2 }, 8⟩]
  nextId := 2

/-- In a run with a cache, `erase(begin, end)` leaves an iterator of a removed entry in the
cache, and the next lookup uses it; the last address is found in a range that does not contain
it; a plain range is stored over a stripe of size 1 that does not start in it; and an address of a
stripe is not found past a plain range between its addresses. -/
theorem lookups_go_wrong :
    (∃ s, (machine Nat 1).lts.Reachable (.ok s) ∧ ¬ CacheValid s.map ∧
      s.map.contains 1 16 = .error .danglingIterator) ∧
    (∃ s e m, (machine Nat 1).lts.Reachable (.ok s) ∧
      s.map.contains 1 (2 ^ 64 - 1) = .ok (m, some e) ∧ e.range.contains (2 ^ 64 - 1) = false) ∧
    (∃ s e e', (machine Nat 1).lts.Reachable (.ok s) ∧ s.map.tree = [e, e'] ∧
      e.range.contains 1 = true ∧ e'.range.contains 1 = true) ∧
    ∃ s e m, (machine Nat 1).lts.Reachable (.ok s) ∧ e ∈ s.map.tree ∧ e.range.contains 20 = true ∧
      s.map.contains 1 20 = .ok (m, none) := by
  have hr := fun ls {y} => Machine.lts_decided (M := machine Nat 1)
    (P := fun s c => enabled s.map c) (fun _ _ => id) ls
    (y := y) rfl
  refine ⟨?_, ?_, ?_, ?_⟩
  · refine ⟨{ map := { cache := [1], nextId := 2 }, uncached := { nextId := 2 } },
      hr [.insert { start := 0, stop := 16 } 7, .insert { start := 16, stop := 32 } 8,
        .contains 16, .eraseRange (some 0) none] rfl, ?_, rfl⟩
    intro h
    obtain ⟨e, he, -⟩ := h 1 (by simp)
    simp at he
  · exact ⟨_, _, _, hr [.insert { start := 0, stop := 16 } 7] rfl, rfl, rfl⟩
  · exact ⟨⟨overlapping, overlapping⟩, _, _,
      hr [.insert { start := 0, stop := 2, masks := [1], intlvMatch := 1 } 7,
        .insert { start := 1, stop := 2 } 8] rfl, rfl, rfl, rfl⟩
  · exact ⟨_, _, _, hr [.insert { start := 5, stop := 6 } 7,
      .insert { start := 0, stop := 64, masks := [0x10], intlvMatch := 1 } 8] rfl, mem_cons_self,
      rfl, rfl⟩

end Gem5Cxl.L3.RangeMapRuns
