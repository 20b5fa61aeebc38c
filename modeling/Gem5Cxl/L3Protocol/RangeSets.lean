import Gem5Cxl.L3Protocol.RangeLookup

/-!
# Address ranges as sets of addresses

* `intersects_exact`: exactly when `intersects` returns whether two ranges, neither of them empty,
  have an address in common. An interleaved argument of size 1 is taken for its start address, which
  it need not contain (`intersects_one_stripe`).
* `exclude_difference`: `exclude` is set difference, for one plain range and for a list of them. The
  result is sorted if the list is (`exclude_unsorted`), and disjoint if the list is.
-/
namespace Gem5Cxl.L3.RangeSets

open Core L1 L2.RangeMap L3.RangeLookup AddrRange
open List hiding contains_iff

variable {r s : AddrRange}

/-! ## Intersection -/

/-- A plain range of one address. -/
theorem contains_of_size_one (hs : s.masks = []) (hstop : s.stop < 2 ^ 64) (hone : s.size = 1)
    (h : ∃ a, s.contains a = true) {a : Nat} : s.contains a = true ↔ a = s.start := by
  obtain ⟨b, hb⟩ := h
  rw [contains_iff, hs] at hb
  rw [contains_iff, hs]
  simp only [size, hs, length_nil, Nat.shiftRight_zero] at hone
  have := hb.2.2
  simp only [select] at this ⊢
  omega

/-- Some address is in both ranges. -/
def Common (r s : AddrRange) : Prop := ∃ a, r.contains a = true ∧ s.contains a = true

/-- If it is interleaved and of size 1, the range has no address but its start. -/
def OnlyStart (s : AddrRange) : Prop :=
  s.interleaved = true → s.size = 1 → ∀ a, s.contains a = true → a = s.start

/-- In the third branch the answer is that for the start address of the argument. -/
theorem intersects_yields (hr : ∃ a, r.contains a = true) (hs : ∃ a, s.contains a = true)
    (hstop : s.stop < 2 ^ 64) :
    Yields (fun b => (b = true ↔ Common r s) ↔ (s.interleaved = true → s.size = 1 → Overlap r s →
      (r.contains s.start = true ↔ Common r s))) (r.intersects s) := by
  simp only [intersects, yields_ite, yields_ok, yields_error]
  refine ⟨fun hout => ?_, fun hin => ⟨fun hplain => ?_, fun _ => ⟨fun hsize => ?_,
    fun hsize => ⟨fun hmerge => ?_, fun _ => trivial⟩⟩⟩⟩
  · refine iff_of_true ?_ fun _ _ ho => absurd hout (by unfold Overlap at ho; omega)
    simp only [Common, contains_iff, Bool.false_eq_true, false_iff, not_exists]
    omega
  · -- both are intervals, and the later start is in both
    obtain ⟨a, ha⟩ := hr
    obtain ⟨b, hb⟩ := hs
    simp only [interleaved, Bool.not_not, Bool.and_eq_true, List.isEmpty_iff] at hplain
    refine iff_of_true (iff_of_true trivial ⟨max r.start s.start, ?_⟩)
      (by simp [interleaved, hplain])
    simp only [contains_iff, hplain, select] at ha hb ⊢
    omega
  · cases hintlv : s.interleaved with
    | true =>
      have ho : Overlap r s := by
        unfold Overlap
        omega
      exact ⟨fun h _ _ _ => h, fun h => h rfl hsize ho⟩
    | false =>
      have hmasks : s.masks = [] := by simpa [interleaved] using hintlv
      simp [Common, contains_of_size_one hmasks hstop hsize hs]
  · obtain ⟨hstart, hend, hmasks⟩ := mergesWith_iff.1 hmerge
    obtain ⟨a, ha⟩ := hr
    refine iff_of_true ?_ fun _ hone => absurd hone hsize
    simp only [Common, contains_iff, hstart, hend, hmasks, decide_eq_true_eq] at ha ⊢
    refine ⟨fun heq => ⟨a, ha, heq ▸ ha⟩, ?_⟩
    rintro ⟨b, hb, hb'⟩
    exact hb.2.2.symm.trans hb'.2.2

theorem OnlyStart.exact (h : OnlyStart s) (hr : ∃ a, r.contains a = true)
    (hs : ∃ a, s.contains a = true) (hstop : s.stop < 2 ^ 64) {b : Bool}
    (hb : r.intersects s = .ok b) : b = true ↔ Common r s := by
  refine (intersects_yields hr hs hstop b hb).2 fun hintlv hone _ => ?_
  have hall := h hintlv hone
  obtain ⟨a, ha⟩ := hs
  have hstart : s.contains s.start = true := hall a ha ▸ ha
  refine ⟨fun hc => ⟨_, hc, hstart⟩, ?_⟩
  rintro ⟨c, hrc, hsc⟩
  exact hall c hsc ▸ hrc

/-- **Intersection.** With an argument `s` the answer is right for every range `r` it is asked of
exactly if `s` is not an interleaved range of size 1 with another address than its start. For a
single `r` it is right exactly if, where the two spans overlap and `s` is interleaved and of size 1,
its start address is in `r` just if they have an address in common. Two ranges of the first
kind give the same answer both ways. -/
theorem intersects_exact (hs : ∃ a, s.contains a = true) (hstop : s.stop < 2 ^ 64) :
    ((∀ r, (∃ a, r.contains a = true) → ∀ b, r.intersects s = .ok b → (b = true ↔ Common r s)) ↔
      OnlyStart s) ∧
    ∀ r, (∃ a, r.contains a = true) → ∀ b, r.intersects s = .ok b →
      ((b = true ↔ Common r s) ↔ (s.interleaved = true → s.size = 1 → Overlap r s →
        (r.contains s.start = true ↔ Common r s))) ∧
      (OnlyStart r → OnlyStart s → r.stop < 2 ^ 64 → ∀ b', s.intersects r = .ok b' → b = b') := by
  refine ⟨⟨fun h hintlv hone a ha => ?_, fun h r hr b => h.exact hr hs hstop⟩,
    fun r hr b hb => ⟨intersects_yields hr hs hstop b hb, fun hor hos hrstop b' hb' => ?_⟩⟩
  · -- the range of the one address `a`
    obtain ⟨hle, hlt, -⟩ := contains_iff.1 ha
    have hmem c : contains ⟨a, a + 1, [], 0⟩ c = true ↔ c = a := by
      simp [AddrRange.contains, select]
      omega
    have hasked : intersects ⟨a, a + 1, [], 0⟩ s = .ok (contains ⟨a, a + 1, [], 0⟩ s.start) := by
      rw [intersects, if_neg (by simp only; omega), if_neg (by simp [hintlv]), if_pos hone]
    have ha' := (hmem a).2 rfl
    exact ((hmem _).1 ((h _ ⟨a, ha'⟩ _ hasked).2 ⟨a, ha', ha⟩)).symm
  · rw [Bool.eq_iff_iff, hos.exact hr hs hstop hb, hor.exact hs hr hrstop hb']
    simp only [Common, and_comm]

/-- Two stripes of one interleaving. -/
theorem intersects_exact_stripes : ¬ Common ⟨0, 8, [1], 0⟩ ⟨0, 8, [1], 1⟩ := by
  have h := ((intersects_exact (s := ⟨0, 8, [1], 1⟩) ⟨1, by decide⟩ (by decide)).1.2
    (fun _ hone => absurd hone (by decide)) ⟨0, 8, [1], 0⟩ ⟨0, by decide⟩ false rfl)
  simpa using h

/-- **One stripe of one address.** It has the address 1, and is taken for the address 0. -/
theorem intersects_one_stripe :
    intersects ⟨0, 1, [], 0⟩ ⟨0, 2, [1], 1⟩ = .ok true ∧
      intersects ⟨0, 2, [1], 1⟩ ⟨0, 1, [], 0⟩ = .ok false ∧
      contains ⟨0, 1, [], 0⟩ 0 = true ∧ contains ⟨0, 2, [1], 1⟩ 1 = true ∧
      ¬ ∃ a, contains ⟨0, 1, [], 0⟩ a = true ∧ contains ⟨0, 2, [1], 1⟩ a = true := by
  refine ⟨by decide, by decide, by decide, by decide, ?_⟩
  rintro ⟨a, ha, hb⟩
  obtain rfl : a = 0 := by simpa using (contains_iff.1 ha).2.1
  cases hb

/-! ## Difference -/

/-- A range as the constructor of plain ranges makes it. -/
def Plain (r : AddrRange) : Prop := r.masks = [] ∧ r.intlvMatch = 0
  deriving Decidable

/-- Sorted and disjoint. -/
def InOrder (l : List AddrRange) : Prop := l.Pairwise fun g g' => g.stop ≤ g'.start

def Apart (l : List AddrRange) : Prop :=
  l.Pairwise fun g g' => ∀ a, g.contains a = true → g'.contains a = false

/-- `l` is what is left of the ranges of `base` without those of `es`. -/
structure Difference (base es l : List AddrRange) : Prop where
  proper : ∀ g ∈ l, Plain g ∧ g.start < g.stop
  contains : ∀ a, (∃ g ∈ l, g.contains a = true) ↔
    (∃ r ∈ base, r.contains a = true) ∧ ∀ e ∈ es, e.contains a = false
  inOrder : InOrder base → InOrder l
  apart : Apart base → Apart l

variable {e g : AddrRange} {base es l : List AddrRange} {a m n : Nat}

theorem Plain.contains_iff (h : Plain r) : r.contains a = true ↔ r.start ≤ a ∧ a < r.stop := by
  simp [RangeLookup.contains_iff, h.1, h.2, select]

theorem Plain.contains_eq_false (h : Plain r) :
    r.contains a = false ↔ (r.start ≤ a → r.stop ≤ a) := by
  rw [← Bool.not_eq_true, h.contains_iff]
  omega

theorem intersects_eq (hr : Plain r) (hs : Plain s) :
    r.intersects s = .ok (decide (Overlap r s)) := by
  by_cases ho : Overlap r s
  · rw [intersects_plain hr.1 hs.1 ho, decide_eq_true ho]
  · rw [decide_eq_false ho, AddrRange.intersects, if_pos (by unfold Overlap at ho; omega)]

namespace Difference

theorem contains_one (h : Difference [r] es l) :
    (∃ g ∈ l, g.contains a = true) ↔ r.contains a = true ∧ ∀ e ∈ es, e.contains a = false := by
  simpa using h.contains a

theorem one (hp : ∀ g ∈ l, Plain g ∧ g.start < g.stop) (ho : InOrder l)
    (hc : ∀ a, (∃ g ∈ l, g.contains a = true) ↔
      r.contains a = true ∧ ∀ e ∈ es, e.contains a = false) : Difference [r] es l := by
  refine ⟨hp, by simpa using hc, fun _ => ho, fun _ =>
    ho.imp_of_mem fun {g g'} hg hg' hle a ha => ?_⟩
  rw [(hp g hg).1.contains_iff] at ha
  rw [(hp g' hg').1.contains_eq_false]
  omega

theorem within (h : Difference base es l) (hg : g ∈ l) (ha : g.start ≤ a) (ha' : a < g.stop) :
    ∃ r ∈ base, r.contains a = true :=
  ((h.contains a).1 ⟨g, hg, (h.proper g hg).1.contains_iff.2 ⟨ha, ha'⟩⟩).1

theorem within_one (hr : Plain r) (h : Difference [r] es l) (hg : g ∈ l) :
    r.start ≤ g.start ∧ g.stop ≤ r.stop := by
  have hlt := (h.proper g hg).2
  obtain ⟨_, hr₁, hfirst⟩ := h.within hg le_rfl hlt
  obtain ⟨_, hr₂, hlast⟩ := h.within (a := g.stop - 1) hg (by omega) (by omega)
  rw [mem_singleton.1 hr₁, hr.contains_iff] at hfirst
  rw [mem_singleton.1 hr₂, hr.contains_iff] at hlast
  omega

section Loop

variable (hr : ∀ n, Plain { r with start := n })
include hr

theorem nil (hn : r.stop ≤ n) : Difference [{ r with start := n }] es [] := by
  refine .one (by simp) .nil fun a => ⟨by simp, fun ⟨ha, _⟩ => ?_⟩
  obtain ⟨hle, hlt⟩ : n ≤ a ∧ a < r.stop := (hr n).contains_iff.1 ha
  omega

/-- `e` has the addresses from `n` to `m`. -/
theorem skip (he : Plain e) (h : Difference [{ r with start := m }] es l)
    (heq : ∀ a, m ≤ a ∧ a < r.stop ↔ (n ≤ a ∧ a < r.stop) ∧ (e.start ≤ a → e.stop ≤ a)) :
    Difference [{ r with start := n }] (e :: es) l := by
  refine .one h.proper (h.inOrder (pairwise_singleton ..)) fun a => ?_
  rw [h.contains_one, forall_mem_cons, he.contains_eq_false, (hr m).contains_iff,
    (hr n).contains_iff, heq, and_assoc]

/-- The addresses from `n` to `m` are a range of their own. -/
theorem cons (h : Difference [{ r with start := m }] es l) (hnm : n < m) (hm : m ≤ r.stop)
    (hes : ∀ e ∈ es, Plain e ∧ m ≤ e.start) :
    Difference [{ r with start := n }] es ({ start := n, stop := m } :: l) := by
  have hp : Plain { start := n, stop := m } := ⟨rfl, rfl⟩
  refine .one (forall_mem_cons.2 ⟨⟨hp, hnm⟩, h.proper⟩)
    (pairwise_cons.2 ⟨fun g hg => (h.within_one (hr m) hg).1, h.inOrder (pairwise_singleton ..)⟩)
    fun a => ?_
  simp only [mem_cons, exists_eq_or_imp, h.contains_one, hp.contains_iff, (hr _).contains_iff]
  by_cases ha : a < m
  · have hlow : ∀ e ∈ es, e.contains a = false := fun e he =>
      (hes e he).1.contains_eq_false.2 fun hle => absurd ((hes e he).2.trans hle) (by omega)
    simp only [iff_true_intro hlow, and_true]
    omega
  · have hge := Nat.le_of_not_lt ha
    simp only [ha, and_false, false_or, hge, hnm.le.trans hge, true_and]

end Loop

end Difference

theorem excludeLoop_difference (hplain : Plain r) (hn : r.start ≤ n)
    (hp : ∀ e ∈ es, Plain e ∧ e.start ≤ e.stop) (hs : es.Pairwise fun e e' => e.start ≤ e'.start) :
    ∃ l, r.excludeLoop n es = .ok l ∧ Difference [{ r with start := n }] es l := by
  have hr : ∀ n, Plain { r with start := n } := fun _ => hplain
  induction es generalizing n with
  | nil =>
    refine ⟨_, rfl, ?_⟩
    split
    · rename_i hlt
      exact (Difference.nil hr le_rfl).cons hr hlt le_rfl (forall_mem_nil _)
    · exact .nil hr (by omega)
  | cons e es ih =>
    obtain ⟨⟨he, hle⟩, hp⟩ := forall_mem_cons.1 hp
    obtain ⟨hfirst, hs⟩ := pairwise_cons.1 hs
    have hintlv : e.interleaved = false := by simp [interleaved, he.1]
    simp only [excludeLoop, hintlv, Bool.false_eq_true, if_false, intersects_eq hplain he, ok_bind,
      Bool.not_eq_true', decide_eq_false_iff_not]
    by_cases ho : Overlap r e
    · rw [if_neg (not_not.2 ho)]
      obtain ⟨-, hstart⟩ := ho
      by_cases hlow : e.start ≤ n
      · rw [if_pos hlow]
        split
        · obtain ⟨l, hl, hd⟩ :=
            ih (n := if n < e.stop then e.stop else n) (by split <;> omega) hp hs
          exact ⟨l, hl, hd.skip hr he fun a => by split <;> omega⟩
        · exact ⟨[], rfl, (Difference.nil hr le_rfl).skip hr he fun a => by omega⟩
      · rw [if_neg hlow]
        -- a range up to `e`, and what is left from there on
        have hcons : ∀ {l}, Difference [{ r with start := e.start }] (e :: es) l →
            Difference [{ r with start := n }] (e :: es) ({ start := n, stop := e.start } :: l) :=
          fun hd => hd.cons hr (by omega) (by omega) (forall_mem_cons.2
            ⟨⟨he, le_rfl⟩, fun e' he' => ⟨(hp e' he').1, hfirst e' he'⟩⟩)
        split
        · obtain ⟨l, hl, hd⟩ := ih (n := e.stop) (by omega) hp hs
          rw [hl]
          exact ⟨_, rfl, hcons (hd.skip hr he fun a => by omega)⟩
        · exact ⟨_, rfl, hcons ((Difference.nil hr le_rfl).skip hr he fun a => by omega)⟩
    · rw [if_pos ho]
      obtain ⟨l, hl, hd⟩ := ih hn hp hs
      unfold Overlap at ho
      exact ⟨l, hl, hd.skip hr he fun a => by omega⟩

theorem exclude_one (hr : Plain r) (hp : ∀ e ∈ es, Plain e ∧ e.start ≤ e.stop) :
    ∃ l, r.exclude es = .ok l ∧ Difference [r] es l := by
  have hmem e : e ∈ es.mergeSort (fun r s => !s.lt r) ↔ e ∈ es := mem_mergeSort
  have hsorted : (es.mergeSort fun r s => !s.lt r).Pairwise fun r s => r.start ≤ s.start := by
    simp only [not_lt_eq_key_le]
    refine (pairwise_mergeSort ?_ ?_ es).imp fun h => start_le_of_key (of_decide_eq_true h)
    · simpa using fun _ _ _ => le_trans
    · simpa using fun r s => le_total (key r) (key s)
  obtain ⟨l, hl, h⟩ := excludeLoop_difference hr le_rfl (fun e he => hp e ((hmem e).1 he)) hsorted
  refine ⟨l, ?_, h.proper, by simpa only [hmem] using h.contains, h.inOrder, h.apart⟩
  rw [AddrRange.exclude, if_neg (by simp [interleaved, hr.1]), hl]

theorem mapM_exclude (hb : ∀ r ∈ base, Plain r) (hp : ∀ e ∈ es, Plain e ∧ e.start ≤ e.stop) :
    ∃ ls, base.mapM (·.exclude es) = .ok ls ∧ Difference base es ls.flatten := by
  induction base with
  | nil => exact ⟨[], rfl, by simp, by simp, id, id⟩
  | cons r base ih =>
    obtain ⟨hr, hb⟩ := forall_mem_cons.1 hb
    obtain ⟨l, hl, h⟩ := exclude_one hr hp
    obtain ⟨ls, hls, hd⟩ := ih hb
    refine ⟨l :: ls, by rw [mapM_cons, hl, ok_bind, hls]; rfl,
      forall_mem_append.2 ⟨h.proper, hd.proper⟩, fun a => ?_, fun ho => ?_, fun ha => ?_⟩
    · simp only [flatten_cons, mem_append, or_and_right, exists_or, h.contains_one, hd.contains,
        mem_cons, exists_eq_left]
    · obtain ⟨hfirst, ho⟩ := pairwise_cons.1 ho
      refine pairwise_append.2
        ⟨h.inOrder (pairwise_singleton ..), hd.inOrder ho, fun g hg g' hg' => ?_⟩
      obtain ⟨r', hr', hstart⟩ := hd.within hg' le_rfl (hd.proper g' hg').2
      rw [(hb r' hr').contains_iff] at hstart
      exact ((h.within_one hr hg).2.trans (hfirst r' hr')).trans hstart.1
    · obtain ⟨hfirst, ha⟩ := pairwise_cons.1 ha
      refine pairwise_append.2
        ⟨h.apart (pairwise_singleton ..), hd.apart ha, fun g hg g' hg' a hga => ?_⟩
      by_contra hga'
      obtain ⟨⟨r', hr', har⟩, -⟩ := (hd.contains a).1 ⟨g', hg', Bool.not_eq_false _ ▸ hga'⟩
      exact absurd har (by simp [hfirst r' hr' a (h.contains_one.1 ⟨g, hg, hga⟩).1])

/-- **Difference.** `exclude` leaves the addresses of a plain range that are in none of the excluded
ones, as sorted and disjoint ranges. Of a list it leaves the same for each range in turn: the result
is sorted if the list is, and disjoint if the list is. -/
theorem exclude_difference (hr : Plain r) (hb : ∀ r ∈ base, Plain r)
    (hp : ∀ e ∈ es, Plain e ∧ e.start ≤ e.stop) :
    (∃ l, r.exclude es = .ok l ∧ InOrder l ∧ Difference [r] es l) ∧
      ∃ l, L2.RangeMap.exclude base es = .ok l ∧ Difference base es l := by
  constructor
  · obtain ⟨l, hl, h⟩ := exclude_one hr hp
    exact ⟨l, hl, h.inOrder (pairwise_singleton ..), h⟩
  · obtain ⟨ls, hls, hd⟩ := mapM_exclude hb (fun e he => hp e (mem_mergeSort.1 he))
    exact ⟨ls.flatten, by rw [L2.RangeMap.exclude, hls]; rfl, hd.proper,
      by simpa only [mem_mergeSort] using hd.contains, hd.inOrder, hd.apart⟩

/-- Two ranges that overlap, one of them past the end, are taken from one. -/
theorem exclude_difference_overlapping :
    ∃ l, AddrRange.exclude ⟨0, 16, [], 0⟩ [⟨10, 20, [], 0⟩, ⟨4, 12, [], 0⟩] = .ok l ∧
      ∀ a, (∃ g ∈ l, g.contains a = true) ↔ a < 4 := by
  obtain ⟨l, hl, -, h⟩ := (exclude_difference (r := ⟨0, 16, [], 0⟩) (by decide) (forall_mem_nil _)
    (by decide : ∀ e ∈ [⟨10, 20, [], 0⟩, ⟨4, 12, [], 0⟩], Plain e ∧ e.start ≤ e.stop)).1
  refine ⟨l, hl, fun a => (h.contains a).trans ?_⟩
  simp [AddrRange.contains, select]
  omega

/-- **Bases out of order.** The list version keeps their order. -/
theorem exclude_unsorted :
    ∃ l, L2.RangeMap.exclude [⟨5, 10, [], 0⟩, ⟨0, 3, [], 0⟩] [] = .ok l ∧ ¬ InOrder l := by
  refine ⟨[⟨5, 10, [], 0⟩, ⟨0, 3, [], 0⟩], ?_, by simp [InOrder]⟩
  simp [L2.RangeMap.exclude, AddrRange.exclude, interleaved, excludeLoop]

end Gem5Cxl.L3.RangeSets
