import Gem5Cxl.L3Protocol.StackLeaves

/-!
# The stack distance calculator computes the LRU stack distance

The specification is a list of addresses, most recent first: an update moves its
address to the front or deletes it, and the distance is the number of addresses in
front. Runs are fewer than `2 ^ 30` calls from an empty calculator.

* `Rep`: the tree and the map of a list of uses.
* `update_spec`, `query_spec`: what the two calls return and leave behind.
* `distance_always`: in every run no call faults and every distance is right.
* `exact_when_kept`: so are the marks, in runs in which no marked address is asked
  for with `mark` false.
* `mark_lost`: such a query clears the mark.
-/
namespace Gem5Cxl.L3.StackDistance

open Core L1 L2.StackDist L3.StackTree StackDistCalc List Function Machine

/-! ## The list -/

/-- An address of the list, and whether it was marked since it was last inserted. -/
structure Entry where
  address : Nat
  marked : Bool
deriving DecidableEq, Repr

def addresses (l : List Entry) : List Nat := l.map Entry.address

/-- The number of addresses more recent than `a`. -/
def distance (l : List Nat) (a : Nat) : Nat :=
  if a ∈ l then (l.takeWhile (· ≠ a)).length else infinity

def isMarked (l : List Entry) (a : Nat) : Bool := l.any fun e => e.address = a && e.marked

def remove (l : List Entry) (a : Nat) : List Entry := l.filter fun e => e.address ≠ a

/-- `a` moves to the most recent end. -/
def touch (l : List Entry) (a : Nat) : List Entry := ⟨a, false⟩ :: remove l a

/-- A call of `calcStackDist`. -/
def note (l : List Entry) (a : Nat) (mark : Bool) : List Entry :=
  l.map fun e => if e.address = a then { e with marked := e.marked || mark } else e

/-! ## Uses and entries -/

def entry (e : Use) : Entry := ⟨e.address, e.marked⟩

def view (E : List Use) : List Entry := E.map entry

def others (E : List Use) (a : Nat) : List Use := E.filter fun e => e.address ≠ a

def Distinct (E : List Use) : Prop := E.Pairwise fun e e' => e.address ≠ e'.address

variable (l : List Entry)

section Lists

variable {E pre post : List Use} {e : Use} {a : Nat}

theorem addresses_view (E : List Use) : addresses (view E) = E.map Use.address := map_map

theorem view_others (E : List Use) (a : Nat) : view (others E a) = remove (view E) a := by
  rw [view, view, remove, filter_map]
  rfl

theorem addresses_remove (a : Nat) : addresses (remove l a) = (addresses l).filter (· ≠ a) := by
  rw [addresses, addresses, filter_map]
  rfl

theorem addresses_touch (a : Nat) : addresses (touch l a) = a :: (addresses l).filter (· ≠ a) := by
  rw [← addresses_remove]
  rfl

theorem addresses_note (a : Nat) (mark : Bool) : addresses (note l a mark) = addresses l := by
  rw [addresses, note, map_map]
  refine map_congr_left fun e _ => ?_
  simp only [comp]
  split
  · rfl
  · rfl

theorem Distinct.ne_before (h : Distinct (pre ++ e :: post)) {u : Use} (hu : u ∈ pre) :
    u.address ≠ e.address :=
  (pairwise_append.mp h).2.2 u hu e mem_cons_self

theorem Distinct.ne_after (h : Distinct (pre ++ e :: post)) {u : Use} (hu : u ∈ post) :
    u.address ≠ e.address :=
  ((pairwise_cons.mp (pairwise_append.mp h).2.1).1 u hu).symm

theorem Distinct.others (h : Distinct (pre ++ e :: post)) :
    others (pre ++ e :: post) e.address = pre ++ post := by
  have hpre : pre.filter (fun u => u.address ≠ e.address) = pre :=
    filter_eq_self.mpr fun u hu => decide_eq_true (h.ne_before hu)
  have hpost : post.filter (fun u => u.address ≠ e.address) = post :=
    filter_eq_self.mpr fun u hu => decide_eq_true (h.ne_after hu)
  rw [StackDistance.others, filter_append, filter_cons_of_neg (by simp), hpre, hpost]

theorem Distinct.distance (h : Distinct (pre ++ e :: post)) :
    distance ((pre ++ e :: post).map Use.address) e.address = pre.length := by
  have hpre : ∀ b ∈ pre.map Use.address, decide (b ≠ e.address) = true := by
    intro b hb
    obtain ⟨u, hu, rfl⟩ := mem_map.mp hb
    exact decide_eq_true (h.ne_before hu)
  rw [StackDistance.distance, if_pos (by simp), map_append, takeWhile_append_of_pos hpre, map_cons,
    takeWhile_cons_of_neg (by simp), append_nil, length_map]

theorem distance_of_absent (h : ∀ e ∈ E, e.address ≠ a) :
    distance (E.map Use.address) a = infinity := by
  refine if_neg fun hmem => ?_
  obtain ⟨u, hu, heq⟩ := mem_map.mp hmem
  exact h u hu heq

theorem Distinct.isMarked (h : Distinct (pre ++ e :: post)) :
    isMarked (view (pre ++ e :: post)) e.address = e.marked := by
  have hnone : ∀ l : List Use, (∀ u ∈ l, u.address ≠ e.address) →
      (l.map entry).any (fun u => u.address = e.address && u.marked) = false := by
    intro l hl
    rw [any_map, any_eq_false]
    intro u hu
    simp [entry, hl u hu]
  have hpre := hnone pre fun u => h.ne_before
  have hpost := hnone post fun u => h.ne_after
  rw [StackDistance.isMarked, view]
  simp [hpre, hpost, entry]

theorem isMarked_of_absent (h : ∀ e ∈ E, e.address ≠ a) : isMarked (view E) a = false := by
  rw [isMarked, view, any_map, any_eq_false]
  intro u hu
  simp [entry, h u hu]

end Lists

/-! ## The calls -/

/-- The calculator of a list of uses. -/
structure Rep (t : StackDistCalc) (E : List Use) : Prop where
  holds : Holds t E
  distinct : Distinct E
  map : ∀ a i, t.aiMap a = some i ↔ ∃ e ∈ E, e.address = a ∧ e.index = i

section Calls

variable {t : StackDistCalc} {E pre post : List Use} {e : Use} {a : Nat}

theorem Rep.find (h : Rep t E) (a : Nat) :
    (∃ pre e post, E = pre ++ e :: post ∧ e.address = a ∧ t.aiMap a = some e.index) ∨
      ((∀ e ∈ E, e.address ≠ a) ∧ t.aiMap a = none) := by
  cases hmap : t.aiMap a with
  | none =>
    refine .inr ⟨fun e he heq => ?_, rfl⟩
    have hsome := (h.map a e.index).mpr ⟨e, he, heq, rfl⟩
    cases hmap.symm.trans hsome
  | some i =>
    obtain ⟨e, he, heq, rfl⟩ := (h.map a i).mp hmap
    obtain ⟨pre, post, rfl⟩ := append_of_mem he
    exact .inl ⟨pre, e, post, rfl, heq, rfl⟩

theorem Holds.withMap (h : Holds t E) (f : Nat → Option Nat) : Holds { t with aiMap := f } E := by
  refine ⟨h.layers.congr h.sized.pos (fun _ _ => rfl) rfl fun _ _ => rfl, h.sized.congr rfl fun _ _ => rfl,
    fun e he => ?_, h.sorted⟩
  obtain ⟨leaf, hleaf⟩ := h.leaves e he
  exact ⟨leaf, hleaf.node, hleaf.marked, hleaf.parent, hleaf.isLeft⟩

theorem lookup_leaf (h : Holds t E) (he : e ∈ E) : t.lookup 0 e.index = .ok (0, e.index) := by
  obtain ⟨leaf, hleaf⟩ := h.leaves e he
  exact lookup_eq (by rw [hleaf.node]; rfl)

theorem takeOut_spec (h : Rep t E) (a : Nat) (addNewNode : Bool) :
    ∃ t', t.takeOut a addNewNode = .ok ((distance (E.map Use.address) a, isMarked (view E) a), t') ∧
      Holds t' (others E a) ∧ t'.index = t.index ∧
      t'.aiMap = update t.aiMap a (if addNewNode then some t.index else none) := by
  obtain ⟨pre, e, post, rfl, rfl, hmap⟩ | ⟨habsent, hmap⟩ := h.find a
  · have hmoved := Holds.withMap h.holds
      (update t.aiMap e.address (if addNewNode then some t.index else none))
    obtain ⟨t', leaf, hrun, hleaf, hmark, hholds, hindex, hmap'⟩ := hmoved.out
    rw [h.distinct.distance, h.distinct.isMarked, h.distinct.others]
    refine ⟨t'.erase (0, e.index), ?_, hholds, hindex, hmap'⟩
    rw [takeOut, hmap]
    simp only
    rw [lookup_leaf hmoved (mem_append_right _ mem_cons_self), ok_bind, hrun, ok_bind]
    rw [hleaf, ok_bind, hmark]
    rfl
  · rw [distance_of_absent habsent, isMarked_of_absent habsent, others,
      filter_eq_self.2 fun u hu => decide_eq_true (habsent u hu)]
    rw [takeOut, hmap]
    cases addNewNode with
    | true => exact ⟨_, rfl, Holds.withMap h.holds _, rfl, rfl⟩
    | false =>
      refine ⟨t, rfl, h.holds, rfl, ?_⟩
      rw [if_neg Bool.false_ne_true, ← hmap, update_eq_self]

theorem distinct_others (h : Distinct E) (a : Nat) : Distinct (others E a) := h.filter _

theorem mem_others {u : Use} : u ∈ others E a ↔ u ∈ E ∧ u.address ≠ a := by
  rw [others, mem_filter, decide_eq_true_iff]

theorem Rep.map_others (h : Rep t E) (a b i : Nat) :
    (∃ u ∈ others E a, u.address = b ∧ u.index = i) ↔ b ≠ a ∧ t.aiMap b = some i := by
  rw [h.map]
  constructor
  · rintro ⟨u, hu, rfl, rfl⟩
    obtain ⟨hmem, hne⟩ := mem_others.mp hu
    exact ⟨hne, u, hmem, rfl, rfl⟩
  · rintro ⟨hne, u, hu, rfl, rfl⟩
    exact ⟨u, mem_others.mpr ⟨hu, hne⟩, rfl, rfl⟩

/-- **An update** returns the distance and the mark, and moves the address to the front or
deletes it. -/
theorem update_spec (h : Rep t E) (a : Nat) (addNewNode : Bool) (hN : t.index < 2 ^ 30) :
    ∃ t' E', t.calcStackDistAndUpdate a addNewNode =
        .ok ((distance (E.map Use.address) a, isMarked (view E) a), t') ∧ Rep t' E' ∧
      view E' = (if addNewNode then touch (view E) a else remove (view E) a) ∧
        t'.index ≤ t.index + 1 := by
  obtain ⟨t₁, hout, hholds, hindex, hmap⟩ := takeOut_spec h a addNewNode
  rw [calcStackDistAndUpdate, hout, ok_bind]
  cases addNewNode with
  | false =>
    refine ⟨t₁, others E a, rfl, ⟨hholds, distinct_others h.distinct a, fun b i => ?_⟩, view_others E a, ?_⟩
    · rw [hmap, h.map_others]
      by_cases hb : b = a
      · simp [hb]
      · simp [hb]
    · rw [hindex]
      exact Nat.le_succ _
  | true =>
    obtain ⟨t₂, hadd, hholds', hindex', hmap'⟩ := hholds.addLeaf a (hindex ▸ hN)
    refine ⟨t₂, ⟨a, t₁.index, false⟩ :: others E a, ?_, ⟨hholds', ?_, fun b i => ?_⟩, ?_, ?_⟩
    · simp only [if_true]
      rw [hadd]
      rfl
    · refine pairwise_cons.mpr ⟨fun u hu => ?_, distinct_others h.distinct a⟩
      exact (mem_others.mp hu).2.symm
    · simp only [mem_cons, or_and_right, exists_or, exists_eq_left]
      rw [hmap', hmap, hindex, h.map_others]
      by_cases hb : b = a
      · simp [hb]
      · simp [hb, Ne.symm hb]
    · rw [view, map_cons, ← view, view_others]
      rfl
    · rw [hindex', hindex]

/-- What the code makes of the mark: the last one counts. -/
def overwrite (l : List Entry) (a : Nat) (mark : Bool) : List Entry :=
  l.map fun e => if e.address = a then { e with marked := mark } else e

theorem overwrite_view (h : Distinct (pre ++ e :: post)) (mark : Bool) :
    view (pre ++ { e with marked := mark } :: post) =
      overwrite (view (pre ++ e :: post)) e.address mark := by
  have hpre : pre.map ((fun u => if u.address = e.address then { u with marked := mark } else u) ∘ entry) =
      pre.map entry := map_congr_left fun u hu => if_neg (h.ne_before hu)
  have hpost : post.map ((fun u => if u.address = e.address then { u with marked := mark } else u) ∘ entry) =
      post.map entry := map_congr_left fun u hu => if_neg (h.ne_after hu)
  rw [view, view, overwrite, map_map, map_append, map_append, map_cons, map_cons, hpre, hpost]
  simp [entry]

theorem overwrite_of_absent (h : ∀ e ∈ E, e.address ≠ a) (mark : Bool) :
    overwrite (view E) a mark = view E := by
  rw [overwrite, view, map_map]
  exact map_congr_left fun u hu => if_neg (h u hu)

/-- **A query** returns the distance and the mark, and sets the mark. -/
theorem query_spec (h : Rep t E) (a : Nat) (mark : Bool) :
    ∃ t' E', t.calcStackDist a mark = .ok
      ((distance (E.map Use.address) a, isMarked (view E) a), t') ∧
      Rep t' E' ∧ view E' = overwrite (view E) a mark ∧ t'.index = t.index := by
  obtain ⟨pre, e, post, rfl, rfl, hmap⟩ | ⟨habsent, hmap⟩ := h.find a
  · have he : e ∈ pre ++ e :: post := mem_append_right _ mem_cons_self
    obtain ⟨leaf, hleaf⟩ := h.holds.leaves e he
    have hmarked := h.holds.mark mark hleaf
    rw [h.distinct.distance, h.distinct.isMarked]
    refine ⟨t.store (0, e.index) { leaf with isMarked := mark }, _, ?_, ⟨hmarked, ?_, fun b i => ?_⟩,
      overwrite_view h.distinct mark, rfl⟩
    · rw [calcStackDist, hmap]
      simp only
      rw [lookup_leaf h.holds he, ok_bind, deref_eq hleaf.node, ok_bind, hmarked.distance, hleaf.marked]
      rfl
    · have hdistinct := h.distinct
      rw [Distinct, ← pairwise_map] at hdistinct ⊢
      simpa using hdistinct
    · refine (h.map b i).trans ?_
      simp [or_and_right, exists_or]
  · rw [distance_of_absent habsent, isMarked_of_absent habsent]
    refine ⟨t, E, ?_, h, (overwrite_of_absent habsent mark).symm, rfl⟩
    rw [calcStackDist, hmap]

end Calls

/-! ## Runs -/

inductive Call
  | update (a : Nat) (addNewNode : Bool)
  | query (a : Nat) (mark : Bool)
deriving DecidableEq

/-- The calculator, the number of calls so far, and the list. -/
structure Run where
  calculator : StackDistCalc
  calls : Nat
  list : List Entry

def start : Run := ⟨.new, 0, []⟩

def step (s : Run) : Call → Except Fault Run
  | .update a addNewNode => do
    let (_, t) ← s.calculator.calcStackDistAndUpdate a addNewNode
    return ⟨t, s.calls + 1, if addNewNode then touch s.list a else remove s.list a⟩
  | .query a mark => do
    let (_, t) ← s.calculator.calcStackDist a mark
    return ⟨t, s.calls + 1, note s.list a mark⟩

/-- Fewer than `2 ^ 30` calls. -/
def machine : Machine Run Call Fault where
  init s := s = start
  enabled s _ := s.calls + 1 < 2 ^ 30
  step := step

/-- A marked address is not asked for with `mark` false. -/
def KeepsMark (s : Run) : Call → Prop
  | .update _ _ => True
  | .query a mark => isMarked s.list a = true → mark = true

/-- The calls that may come next return the distance, and fault nowhere. -/
structure Distances (s : Run) : Prop where
  update : s.calls + 1 < 2 ^ 30 → ∀ a addNewNode, ∃ mark t,
    s.calculator.calcStackDistAndUpdate a addNewNode = .ok ((distance (addresses s.list) a, mark), t)
  query : ∀ a mark, ∃ mark' t,
    s.calculator.calcStackDist a mark = .ok ((distance (addresses s.list) a, mark'), t)

/-- They return the distance and the mark, and fault nowhere. -/
structure Exact (s : Run) : Prop where
  update : s.calls + 1 < 2 ^ 30 → ∀ a addNewNode, ∃ t,
    s.calculator.calcStackDistAndUpdate a addNewNode = .ok ((distance (addresses s.list) a, isMarked s.list a), t)
  query : s.calls + 1 < 2 ^ 30 → ∀ a mark, ∃ t,
    s.calculator.calcStackDist a mark = .ok ((distance (addresses s.list) a, isMarked s.list a), t)

/-- The addresses are those of the list; so are the marks, if they were kept. -/
structure Inv (kept : Prop) (s : Run) : Prop where
  rep : ∃ E, Rep s.calculator E ∧ E.map Use.address = addresses s.list ∧ (kept → view E = s.list)
  index : s.calculator.index ≤ s.calls

theorem inv_start (kept : Prop) : Inv kept start := by
  have hroot : ∀ {k i node}, new.tree (k + 1) i = some node → k = 0 ∧ i = 0 ∧ node = {} := by
    intro k i node hnode
    simp only [new] at hnode
    split at hnode
    · rename_i hhere
      cases hnode
      exact ⟨Nat.succ.inj hhere.1, hhere.2, rfl⟩
    · cases hnode
  have hlayer : LayerOk new (indices []) (Gone 0 []) 0 := by
    refine ⟨fun i node hnode => ?_, fun i node hnode => ?_, fun i hi _ => ?_⟩
    · rw [(hroot hnode).2.1]
      exact Nat.one_pos
    · obtain ⟨-, rfl, rfl⟩ := hroot hnode
      exact ⟨rfl, rfl, nofun, nofun, rfl, rfl, rfl⟩
    · have hzero : i = 0 := Nat.lt_one_iff.mp hi
      rw [hzero]
      rfl
  have hlayers : Layers new (indices []) (Gone 0 []) 0 := by
    refine ⟨fun k hk => ?_, fun j hj => ?_, fun j hj => hj.1, rfl, fun l i hl => ?_⟩
    · rw [Nat.lt_one_iff.mp hk]
      exact hlayer
    · cases hj
    · exact if_neg fun heq => ne_of_gt hl heq.1
  have hsized : Sized new 0 := by
    refine ⟨Nat.one_pos, Nat.zero_le _, .inl rfl, fun k hk => ?_⟩
    rw [Nat.lt_one_iff.mp hk]
    rfl
  refine ⟨⟨[], ⟨⟨hlayers, hsized, nofun, .nil⟩, .nil, fun a i => ?_⟩, rfl, fun _ => rfl⟩,
    le_rfl⟩
  exact iff_of_false nofun nofun

theorem overwrite_eq_note {l : List Entry} {a : Nat} {mark : Bool}
    (h : isMarked l a = true → mark = true) :
    overwrite l a mark = note l a mark := by
  refine map_congr_left fun e he => ?_
  by_cases hea : e.address = a
  · cases hm : e.marked with
    | false => rfl
    | true =>
      have hmarked : isMarked l a = true := any_eq_true.mpr ⟨e, he, by simp [hea, hm]⟩
      rw [h hmarked]
      rfl
  · rw [if_neg hea, if_neg hea]

theorem addresses_overwrite (a : Nat) (mark : Bool) :
    addresses (overwrite l a mark) = addresses l := by
  rw [addresses, overwrite, map_map]
  refine map_congr_left fun e _ => ?_
  simp only [comp]
  split
  · rfl
  · rfl

theorem step_inv {kept : Prop} (s : Run) (c : Call) (h : Inv kept s) (he : s.calls + 1 < 2 ^ 30)
    (hk : kept → KeepsMark s c) : ∃ s', step s c = .ok s' ∧ Inv kept s' := by
  obtain ⟨E, hrep, haddr, hview⟩ := h.rep
  have hindex := h.index
  cases c with
  | update a addNewNode =>
    obtain ⟨t', E', hrun, hrep', hview', hindex'⟩ := update_spec hrep a addNewNode (by omega)
    have hcalls : t'.index ≤ s.calls + 1 := by omega
    refine ⟨_, by rw [step, hrun]; rfl, ⟨E', hrep', ?_, fun hkept => ?_⟩, hcalls⟩
    · rw [← addresses_view, hview']
      cases addNewNode with
      | false => simp only [Bool.false_eq_true, if_false, addresses_remove, addresses_view, haddr]
      | true => simp only [if_true, addresses_touch, addresses_view, haddr]
    · rw [hview', hview hkept]
  | query a mark =>
    obtain ⟨t', E', hrun, hrep', hview', hindex'⟩ := query_spec hrep a mark
    have hcalls : t'.index ≤ s.calls + 1 := by omega
    refine ⟨_, by rw [step, hrun]; rfl, ⟨E', hrep', ?_, fun hkept => ?_⟩, hcalls⟩
    · rw [← addresses_view, hview', addresses_overwrite, addresses_view, haddr, addresses_note]
    · have hkeeps : isMarked s.list a = true → mark = true := hk hkept
      rw [hview', hview hkept, overwrite_eq_note hkeeps]

theorem Inv.distances {kept : Prop} {s : Run} (h : Inv kept s) : Distances s := by
  obtain ⟨E, hrep, haddr, -⟩ := h.rep
  have hindex := h.index
  constructor
  · intro hcalls a addNewNode
    obtain ⟨t', -, hrun, -⟩ := update_spec hrep a addNewNode (by omega)
    rw [haddr] at hrun
    exact ⟨_, t', hrun⟩
  · intro a mark
    obtain ⟨t', -, hrun, -⟩ := query_spec hrep a mark
    rw [haddr] at hrun
    exact ⟨_, t', hrun⟩

theorem Inv.exact {s : Run} (h : Inv True s) : Exact s := by
  obtain ⟨E, hrep, haddr, hview⟩ := h.rep
  have hindex := h.index
  have hlist := hview trivial
  constructor
  · intro hcalls a addNewNode
    obtain ⟨t', -, hrun, -⟩ := update_spec hrep a addNewNode (by omega)
    rw [haddr, hlist] at hrun
    exact ⟨t', hrun⟩
  · intro _ a mark
    obtain ⟨t', -, hrun, -⟩ := query_spec hrep a mark
    rw [haddr, hlist] at hrun
    exact ⟨t', hrun⟩

/-- **Distances.** In every run of fewer than `2 ^ 30` calls no call faults, and every
distance is the number of more recent addresses. -/
theorem distance_always {x : Except Fault Run} (hr : machine.lts.Reachable x) :
    ∃ s, x = .ok s ∧ Distances s := by
  obtain ⟨s, rfl, hinv⟩ := total
    (fun s hs => hs ▸ inv_start False)
    (fun s c hI he _ => step_inv s c hI he fun h => h.elim) (unguarded hr)
  exact ⟨s, rfl, hinv.distances⟩

/-- Three addresses are used, one of them again and one deleted, and a mark is lost. -/
theorem distance_always_unmarked : ∃ s, machine.lts.Reachable (.ok s) ∧
    s.list = [⟨10, false⟩, ⟨30, true⟩] ∧ Distances s := by
  have hr := fun {y} => lts_decided (M := machine) (P := fun s _ => s.calls + 1 < 2 ^ 30)
    (fun _ _ => id) [.update 10 true, .update 20 true, .update 30 true, .query 30 true,
      .query 30 false, .update 10 true, .update 20 false] (y := y) rfl
  obtain ⟨s, hs, h⟩ := distance_always (hr rfl)
  cases hs
  exact ⟨_, hr rfl, rfl, h⟩

/-- **Distances and marks.** If no call asks for a marked address with `mark` false, every
mark returned is true exactly if the address was marked since it was last inserted. -/
theorem exact_when_kept {x : Except Fault Run} (hr : (machine.under KeepsMark).Reachable x) :
    ∃ s, x = .ok s ∧ Exact s := by
  obtain ⟨s, rfl, hinv⟩ := total
    (fun s hs => hs ▸ inv_start True)
    (fun s c hI he hg => step_inv s c hI he fun _ => hg) hr
  exact ⟨s, rfl, hinv.exact⟩

instance (s : Run) (c : Call) : Decidable (KeepsMark s c) := by
  cases c <;> dsimp only [KeepsMark] <;> infer_instance

/-- Three addresses, the first of which is marked and then used again. -/
theorem exact_when_kept_three : ∃ s, (machine.under KeepsMark).Reachable (.ok s) ∧
    s.list = [⟨10, false⟩, ⟨30, false⟩, ⟨20, true⟩] ∧ Exact s := by
  have hr := fun {y} => under_decided (M := machine)
    (P := fun s c => s.calls + 1 < 2 ^ 30 ∧ KeepsMark s c) (fun _ _ => id)
    [.update 10 true, .update 20 true, .query 20 true, .query 10 true, .update 30 true, .update 10 true]
    (y := y) rfl
  obtain ⟨s, hs, hexact⟩ := exact_when_kept (hr rfl)
  cases hs
  exact ⟨_, hr rfl, rfl, hexact⟩

/-- An address is inserted and marked; a query with `mark` false clears the mark, and the next call
returns it as not marked. -/
theorem mark_lost : ∃ (s : Run) (t : StackDistCalc), machine.lts.Reachable (.ok s) ∧
    s.list = [⟨10, true⟩] ∧ s.calculator.calcStackDist 10 true = .ok ((0, false), t) := by
  have hr := fun {y} => lts_decided (M := machine)
    (P := fun s _ => s.calls + 1 < 2 ^ 30) (fun _ _ => id)
    [.update 10 true, .query 10 true, .query 10 false] (y := y) rfl
  exact ⟨_, _, hr rfl, rfl, rfl⟩

end Gem5Cxl.L3.StackDistance
