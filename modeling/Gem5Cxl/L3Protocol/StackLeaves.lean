import Gem5Cxl.L3Protocol.StackGrowth

/-!
# The leaves of the stack distance tree

The live leaves are the last uses of the addresses in the stack; their indices
grow with time, so the leaves to the right of one are the more recent uses.

* `Holds`: the tree of a list of uses, most recent first.
* `updateSumsLeavesToRoot_spec`: the walk for a leaf that comes or goes.
* `Holds.out`: a leaf is taken out; the walk returns how many are more recent.
* `Holds.addLeaf`: a leaf is added in front.
* `Holds.distance`: the same number as `out`, with nothing taken out.
-/
namespace Gem5Cxl.L3.StackTree

open Core Core.BlockSums L1 L2.StackDist List StackDistCalc

structure Use where
  address : Nat
  index : Nat
  marked : Bool
deriving DecidableEq

/-- Most recent first. -/
def Sorted (E : List Use) : Prop := E.Pairwise fun e e' => e'.index < e.index

def indices (E : List Use) : Finset Nat := (E.map Use.index).toFinset

theorem mem_indices {E : List Use} {j : Nat} : j ∈ indices E ↔ ∃ e ∈ E, e.index = j := by
  rw [indices, mem_toFinset, mem_map]

/-- A leaf that was added and taken out again. -/
def Gone (N : Nat) (E : List Use) (j : Nat) : Prop := j < N ∧ j ∉ indices E

structure LeafOk (t : StackDistCalc) (e : Use) (leaf : Node) : Prop where
  node : t.tree 0 e.index = some leaf
  marked : leaf.isMarked = e.marked
  parent : leaf.parent = some (1, e.index / 2)
  isLeft : leaf.isLeftNode = decide (e.index % 2 = 0)

/-- The tree of a list of uses. -/
structure Holds (t : StackDistCalc) (E : List Use) : Prop where
  layers : Layers t (indices E) (Gone t.index E) t.index
  sized : Sized t t.index
  leaves : ∀ e ∈ E, ∃ leaf, LeafOk t e leaf
  sorted : Sorted E

/-! ## Lists of uses -/

section Lists

variable {E pre post : List Use} {e : Use}

theorem sorted_iff : Sorted E ↔ (E.map Use.index).Pairwise fun i j => j < i := by
  rw [pairwise_map, Sorted]

theorem sublist_rest (pre post : List Use) (e : Use) : (pre ++ post).Sublist (pre ++ e :: post) :=
  .append_left (sublist_cons_self e post) pre

section
variable (h : Sorted (pre ++ e :: post)) {u : Use}
include h

theorem Sorted.rest : Sorted (pre ++ post) :=
  .sublist (sublist_rest pre post e) h

theorem Sorted.before (hu : u ∈ pre) : e.index < u.index :=
  (pairwise_append.mp h).2.2 u hu e mem_cons_self

theorem Sorted.after (hu : u ∈ post) : u.index < e.index :=
  (pairwise_cons.mp (pairwise_append.mp h).2.1).1 u hu

theorem Sorted.index_ne (hu : u ∈ pre ++ post) : u.index ≠ e.index := by
  rcases mem_append.mp hu with hpre | hpost
  · exact ne_of_gt (h.before hpre)
  · exact ne_of_lt (h.after hpost)

theorem Sorted.not_mem_rest : e.index ∉ indices (pre ++ post) := by
  intro hmem
  obtain ⟨u, hu, heq⟩ := mem_indices.mp hmem
  exact h.index_ne hu heq

end

theorem mem_indices_cons {j : Nat} : j ∈ indices (e :: E) ↔ j = e.index ∨ j ∈ indices E := by
  simp only [mem_indices, mem_cons, or_and_right, exists_or, exists_eq_left]
  rw [eq_comm]

theorem mem_indices_rest {j : Nat} (hj : j ≠ e.index) :
    j ∈ indices (pre ++ post) ↔ j ∈ indices (pre ++ e :: post) := by
  have hne : ¬ e.index = j := fun heq => hj heq.symm
  simp only [mem_indices, mem_append, mem_cons, or_and_right, exists_or, exists_eq_left, hne, false_or]

theorem card_indices (h : Sorted E) : (indices E).card = E.length := by
  have hnodup : (E.map Use.index).Nodup := by
    rw [nodup_iff_pairwise_ne, pairwise_map]
    exact h.imp ne_of_gt
  rw [indices, toFinset_card_of_nodup hnodup, length_map]

theorem Sorted.filter_indices (h : Sorted (pre ++ e :: post)) :
    ((indices (pre ++ e :: post)).filter fun j => e.index < j) = indices pre := by
  ext j
  rw [Finset.mem_filter, mem_indices, mem_indices]
  constructor
  · rintro ⟨⟨u, hu, rfl⟩, hlt⟩
    rcases mem_append.mp hu with hpre | hrest
    · exact ⟨u, hpre, rfl⟩
    · rcases mem_cons.mp hrest with rfl | hpost
      · exact absurd hlt (lt_irrefl _)
      · exact absurd hlt (lt_asymm (h.after hpost))
  · rintro ⟨u, hu, rfl⟩
    exact ⟨⟨u, mem_append_left _ hu, rfl⟩, h.before hu⟩

theorem Sorted.above {D : Nat} (h : Sorted (pre ++ e :: post))
    (hD : ∀ j ∈ indices (pre ++ e :: post), j < 2 ^ D) :
    above (indices (pre ++ e :: post)) e.index D = pre.length := by
  have he : e.index ∈ indices (pre ++ e :: post) :=
    mem_indices.mpr ⟨e, mem_append_right _ mem_cons_self, rfl⟩
  rw [above_eq hD (hD _ he), h.filter_indices, card_indices (pairwise_append.mp h).1]

end Lists

/-! ## The walk of a leaf -/

section Leaves

variable {t t' : StackDistCalc} {L L' : Finset Nat} {G G' : Nat → Prop} {N r : Nat} {leaf : Node}

theorem Layers.congr (h : Layers t L G N) (hpos : 0 < t.treeDepth)
    (htree : ∀ l, l ≠ 0 → t'.tree l = t.tree l)
    (hdepth : t'.treeDepth = t.treeDepth) (hnext : ∀ l, l ≠ 0 → t'.nextIndex l = t.nextIndex l) :
    Layers t' L G N := by
  refine ⟨fun k hk => ?_, h.live, h.gone, ?_, fun l i hl => ?_⟩
  · exact (h.layer k (hdepth ▸ hk)).congr (htree _ (Nat.succ_ne_zero k)) hdepth (hnext _ (Nat.succ_ne_zero k))
  · rw [hdepth, htree _ (ne_of_gt hpos)]
    exact h.root
  · rw [hdepth] at hl
    rw [htree l (by omega)]
    exact h.top l i hl

theorem Layers.store (h : Layers t L G N) (hpos : 0 < t.treeDepth) (r : Nat) (leaf : Node) :
    Layers (t.store (0, r) leaf) L G N :=
  h.congr hpos (fun _ hl => tree_setNode_of_ne hl) rfl (fun _ _ => rfl)

theorem Layers.walked {N' : Nat} (h : Layers t L G N) (hframe : Frame t t')
    (hlayers : ∀ k < t.treeDepth, LayerOk t' L' G' k) (hlive : ∀ j ∈ L', j < N')
    (hgone : ∀ j, G' j → j < N') :
    Layers t' L' G' N' := by
  refine ⟨fun k hk => hlayers k (hframe.depth ▸ hk), hlive, hgone, ?_, fun l i hl => ?_⟩
  · rw [hframe.depth]
    exact hframe.root h.root
  · rw [hframe.depth] at hl
    rw [hframe.top l hl]
    exact h.top l i hl

theorem Sized.congr (h : Sized t N) (hdepth : t'.treeDepth = t.treeDepth)
    (hnext : ∀ l, l ≠ 0 → t'.nextIndex l = t.nextIndex l) : Sized t' N := by
  refine ⟨hdepth ▸ h.pos, hdepth ▸ h.fits, hdepth ▸ h.tight, fun k hk => ?_⟩
  rw [hnext _ (Nat.succ_ne_zero k)]
  exact h.next k (hdepth ▸ hk)

/-- The layers are brought up to date with a leaf that comes or goes. -/
theorem updateSumsLeavesToRoot_spec (isNewLeaf : Bool) (hc : Change r L L' G G')
    (hlayers : Layers t L G N)
    (hpos : 0 < t.treeDepth) (hnext : ∀ k < t.treeDepth, r / 2 ^ (k + 1) < t.nextIndex (k + 1))
    (hleaf : t.tree 0 r = some leaf) (hparent : leaf.parent = some (1, r / 2))
    (hleft : leaf.isLeftNode = decide (r % 2 = 0)) (hnew : r ∈ L' ↔ isNewLeaf = true)
    (hgone : isNewLeaf = false → G' r) :
    ∃ t', t.updateSumsLeavesToRoot (0, r) isNewLeaf =
        .ok (if isNewLeaf then infinity else above L r t.treeDepth, t') ∧
      (∀ k < t.treeDepth, LayerOk t' L' G' k) ∧
      Frame (t.store (0, r) { leaf with sumLeft := if isNewLeaf then 1 else 0 }) t' := by
  have hstored := hlayers.store hpos r { leaf with sumLeft := if isNewLeaf then 1 else 0 }
  have hdiscard : (!isNewLeaf) = true → Covered G' 0 (r / 2 ^ 0) := by
    intro hold j hj
    rw [pow_zero, Nat.div_one, Nat.div_one] at hj
    rw [hj]
    exact hgone (by simpa using hold)
  obtain ⟨t', hrun, hdone, hframe⟩ := updateSum_spec hc (t.treeDepth + 1)
    (fun k hk => absurd hk (Nat.not_lt_zero k)) (fun k hk _ => hstored.layer k hk) hnext hpos hdiscard (Nat.le_succ _)
  have hcount : count L' 0 r = if isNewLeaf then 1 else 0 := by
    rw [count_zero]
    simp only [hnew]
  simp only [pow_zero, Nat.div_one, zero_add, pow_one, hcount, above_zero, ← hleft] at hrun
  have hup : L1.deref leaf.parent = .ok (1, r / 2) := by
    rw [hparent]
    rfl
  refine ⟨t', ?_, hdone, hframe⟩
  rw [updateSumsLeavesToRoot, deref_eq hleaf, ok_bind, hup, ok_bind]
  cases isNewLeaf with
  | false => exact hrun
  | true =>
    refine bind_eq_ok.mpr ⟨_, hrun, ?_⟩
    rfl

/-! ## A leaf is taken out -/

variable {E pre post : List Use} {e : Use}

theorem Holds.index_lt (h : Holds t E) (he : e ∈ E) : e.index < t.index :=
  h.layers.live _ (mem_indices.mpr ⟨e, he, rfl⟩)

theorem Sized.below (h : Sized t N) (hr : r < N) :
    ∀ k < t.treeDepth, r / 2 ^ (k + 1) < t.nextIndex (k + 1) := by
  intro k hk
  rw [h.next k hk]
  exact Nat.lt_succ_of_le (Nat.div_le_div_right (Nat.le_sub_one_of_lt hr))

theorem not_gone (he : e ∈ E) : ¬ Gone N E e.index :=
  fun hgone => hgone.2 (mem_indices.mpr ⟨e, he, rfl⟩)

theorem Holds.above (h : Holds t (pre ++ e :: post)) :
    BlockSums.above (indices (pre ++ e :: post)) e.index t.treeDepth = pre.length :=
  h.sorted.above fun j hj => lt_of_lt_of_le (h.layers.live j hj) h.sized.fits

theorem change_out (N : Nat) (pre post : List Use) (e : Use) :
    Change e.index (indices (pre ++ e :: post)) (indices (pre ++ post)) (Gone N (pre ++ e :: post))
      (Gone N (pre ++ post)) := by
  refine ⟨fun j hj => mem_indices_rest hj, fun j hj => ?_, ?_⟩
  · exact and_congr_right fun _ => not_congr (mem_indices_rest hj)
  · exact not_gone (mem_append_right _ mem_cons_self)

/-- **A use is taken out.** The walk returns the number of more recent ones. -/
theorem Holds.out (h : Holds t (pre ++ e :: post)) :
    ∃ t' leaf, t.updateSumsLeavesToRoot (0, e.index) false = .ok (pre.length, t') ∧
      t'.deref (0, e.index) = .ok leaf ∧ leaf.isMarked = e.marked ∧
      Holds (t'.erase (0, e.index)) (pre ++ post) ∧ t'.index = t.index ∧ t'.aiMap = t.aiMap := by
  have he : e ∈ pre ++ e :: post := mem_append_right _ mem_cons_self
  obtain ⟨leaf, hleaf⟩ := h.leaves e he
  obtain ⟨t', hrun, hdone, hframe⟩ := updateSumsLeavesToRoot_spec false (change_out _ pre post e) h.layers
    h.sized.pos (h.sized.below (h.index_lt he)) hleaf.node hleaf.parent hleaf.isLeft
    (by simpa using h.sorted.not_mem_rest) (fun _ => ⟨h.index_lt he, h.sorted.not_mem_rest⟩)
  rw [h.above] at hrun
  have hindex : t'.index = t.index := hframe.index
  have hwalked : Layers t' (indices (pre ++ post)) (Gone t.index (pre ++ post)) t.index := by
    refine (h.layers.store h.sized.pos _ _).walked hframe hdone (fun j hj => ?_) (fun j hj => hj.1)
    obtain ⟨u, hu, rfl⟩ := mem_indices.mp hj
    exact h.index_lt ((sublist_rest pre post e).subset hu)
  refine ⟨t', { leaf with sumLeft := 0 }, hrun, deref_eq ?_, hleaf.marked,
    ⟨?_, ?_, fun u hu => ?_, h.sorted.rest⟩, hindex, hframe.aiMap⟩
  · rw [hframe.leaves, store, tree_setNode, if_pos ⟨rfl, rfl⟩]
    rfl
  · have hidx : (t'.erase (0, e.index)).index = t.index := hindex
    have hpos' : 0 < t'.treeDepth := lt_of_lt_of_eq h.sized.pos hframe.depth.symm
    rw [hidx]
    exact hwalked.congr hpos' (fun _ hl => tree_setNode_of_ne hl) rfl fun _ _ => rfl
  · have hidx : (t'.erase (0, e.index)).index = t.index := hindex
    rw [hidx]
    exact h.sized.congr hframe.depth fun l _ => congrFun hframe.next l
  · have hne := h.sorted.index_ne hu
    obtain ⟨leaf', hleaf'⟩ := h.leaves u ((sublist_rest pre post e).subset hu)
    refine ⟨leaf', ?_, hleaf'.marked, hleaf'.parent, hleaf'.isLeft⟩
    rw [erase, tree_setNode, if_neg fun heq => hne heq.2, hframe.leaves, store,
      tree_setNode, if_neg fun heq => hne heq.2]
    exact hleaf'.node

theorem Holds.distance (h : Holds t (pre ++ e :: post)) :
    t.getSumsLeavesToRoot (0, e.index) = .ok pre.length := by
  have he : e ∈ pre ++ e :: post := mem_append_right _ mem_cons_self
  obtain ⟨leaf, hleaf⟩ := h.leaves e he
  have hrun := getSum_spec h.layers.layer (not_gone he) (h.sized.below (h.index_lt he)) (t.treeDepth + 1)
    h.sized.pos (Nat.le_succ _)
  simp only [pow_zero, Nat.div_one, zero_add, pow_one, above_zero, ← hleaf.isLeft] at hrun
  rw [getSumsLeavesToRoot, deref_eq hleaf.node, ok_bind, hleaf.parent]
  exact hrun.trans (congrArg Except.ok h.above)

theorem Holds.mark (h : Holds t (pre ++ e :: post)) (mark : Bool) (hleaf : LeafOk t e leaf) :
    Holds (t.store (0, e.index) { leaf with isMarked := mark })
      (pre ++ { e with marked := mark } :: post) := by
  have hmap : (pre ++ { e with marked := mark } :: post).map Use.index = (pre ++ e :: post).map Use.index := by
    simp only [map_append, map_cons]
  have hindices : indices (pre ++ { e with marked := mark } :: post) = indices (pre ++ e :: post) :=
    congrArg toFinset hmap
  have hgone : Gone t.index (pre ++ { e with marked := mark } :: post) = Gone t.index (pre ++ e :: post) := by
    funext j
    rw [Gone, Gone, hindices]
  refine ⟨?_, ?_, fun u hu => ?_, ?_⟩
  · have hstored := h.layers.store h.sized.pos e.index { leaf with isMarked := mark }
    rw [← hindices, ← hgone] at hstored
    exact hstored
  · exact h.sized.congr rfl fun _ _ => rfl
  · by_cases hsame : u = { e with marked := mark }
    · subst hsame
      refine ⟨{ leaf with isMarked := mark }, ?_, rfl, hleaf.parent, hleaf.isLeft⟩
      rw [store, tree_setNode, if_pos ⟨rfl, rfl⟩]
    · have hrest : u ∈ pre ++ post := by
        simp only [mem_append, mem_cons, hsame, false_or] at hu ⊢
        exact hu
      have hne := h.sorted.index_ne hrest
      obtain ⟨leaf', hleaf'⟩ := h.leaves u ((sublist_rest pre post e).subset hrest)
      refine ⟨leaf', ?_, hleaf'.marked, hleaf'.parent, hleaf'.isLeft⟩
      rw [store, tree_setNode, if_neg fun heq => hne heq.2]
      exact hleaf'.node
  · rw [sorted_iff, hmap, ← sorted_iff]
    exact h.sorted

/-! ## A leaf is added -/

theorem Holds.room (h : Holds t E) (hN : t.index < 2 ^ 30) :
    ∃ t', t.makeRoom = .ok t' ∧ Layers t' (indices E) (Gone t.index E) t.index ∧ Grown t t' ∧
      Roomy t' t.index := by
  rw [makeRoom]
  by_cases heven : t.index % 2 = 0
  · rw [if_pos heven]
    exact updateTree_spec h.layers h.sized rfl heven hN
  · rw [if_neg heven]
    exact ⟨t, rfl, h.layers, ⟨rfl, rfl, rfl, rfl⟩, h.sized.roomy heven⟩

theorem change_in (E : List Use) (e : Use) :
    Change e.index (indices E) (indices (e :: E)) (Gone e.index E)
      (Gone (e.index + 1) (e :: E)) := by
  refine ⟨fun j hj => ?_, fun j hj => ?_, fun hgone => lt_irrefl _ hgone.1⟩
  · rw [mem_indices_cons]
    exact or_iff_right hj
  · rw [Gone, mem_indices_cons, or_iff_right hj]
    exact and_congr_left fun _ => by omega

theorem Roomy.sized (h : Roomy t N) : Sized t (N + 1) :=
  ⟨h.pos, h.fits, h.tight.imp_right Nat.lt_succ_of_le, h.next⟩

theorem parent_of_roomy (h : Roomy t N) (hlayers : Layers t L G N) :
    t.lookup 1 (t.nextIndex 1 - 1) = .ok (1, N / 2) := by
  have hnext : t.nextIndex 1 = N / 2 + 1 := h.next 0 h.pos
  have hkept : (t.tree 1 (N / 2)).isSome := by
    refine (hlayers.layer 0 h.pos).kept _ (lt_of_lt_of_eq (Nat.lt_succ_self _) hnext.symm) fun hcov => ?_
    exact lt_irrefl N (hlayers.gone N (hcov N rfl))
  rw [hnext]
  exact lookup_eq hkept

def newLeaf (N : Nat) : Node where
  nodeIndex := N
  isLeftNode := N % 2 = 0
  parent := some (1, N / 2)

/-- The tree with a leaf that no sum counts yet. -/
def withLeaf (t : StackDistCalc) (N : Nat) : StackDistCalc :=
  (t.setNext 0 (t.nextIndex 0 + 1)).store (0, N) (newLeaf N)

theorem leaves_withLeaf (t : StackDistCalc) (N j : Nat) :
    (withLeaf t N).tree 0 j = if j = N then some (newLeaf N) else t.tree 0 j := by
  rw [withLeaf, store, tree_setNode]
  simp only [true_and]
  rfl

theorem next_withLeaf {l : Nat} (hl : l ≠ 0) : (withLeaf t N).nextIndex l = t.nextIndex l :=
  Function.update_of_ne hl _ _

theorem Layers.withLeaf (h : Layers t L G N) (hpos : 0 < t.treeDepth) :
    Layers (withLeaf t N) L G N :=
  h.congr hpos (fun _ hl => tree_setNode_of_ne hl) rfl fun _ hl => next_withLeaf hl

/-- **A use is added.** It is the most recent one. -/
theorem Holds.addLeaf (h : Holds t E) (a : Nat) (hN : t.index < 2 ^ 30) :
    ∃ t', t.addLeaf = .ok t' ∧ Holds t' (⟨a, t.index, false⟩ :: E) ∧ t'.index = t.index + 1 ∧
      t'.aiMap = t.aiMap := by
  obtain ⟨t₁, hroom, hlayers, hgrown, hroomy⟩ := h.room hN
  have hlayers' := hlayers.withLeaf hroomy.pos
  have hnext : ∀ k < t₁.treeDepth, t.index / 2 ^ (k + 1) < (withLeaf t₁ t.index).nextIndex (k + 1) := by
    intro k hk
    rw [next_withLeaf (Nat.succ_ne_zero k), hroomy.next k hk]
    exact Nat.lt_succ_self _
  have hnew : t.index ∈ indices (⟨a, t.index, false⟩ :: E) := mem_indices_cons.mpr (.inl rfl)
  obtain ⟨t₂, hrun, hdone, hframe⟩ := updateSumsLeavesToRoot_spec true
    (change_in E ⟨a, t.index, false⟩) hlayers' hroomy.pos hnext ((leaves_withLeaf t₁ _ _).trans (if_pos rfl))
    rfl rfl (iff_of_true hnew rfl) nofun
  have hindex : t₂.index = t.index := hframe.index.trans hgrown.index
  have hindex' : t₂.index + 1 = t.index + 1 := congrArg (· + 1) hindex
  refine ⟨{ t₂ with index := t₂.index + 1 }, ?_, ⟨?_, ?_, fun u hu => ?_, ?_⟩, hindex', ?_⟩
  · have hself : (withLeaf t₁ t.index).index = t.index := hgrown.index
    rw [StackDistCalc.addLeaf, hroom, ok_bind, parent_of_roomy hroomy hlayers, hgrown.index]
    show (withLeaf t₁ t.index).updateSumsLeavesToRoot (0, (withLeaf t₁ t.index).index) true >>= _ = _
    rw [hself, hrun]
    rfl
  · have hwalked : Layers t₂ (indices (⟨a, t.index, false⟩ :: E)) (Gone (t.index + 1) (⟨a, t.index, false⟩ :: E))
        (t.index + 1) := by
      refine (hlayers'.store hroomy.pos _ _).walked hframe hdone (fun j hj => ?_) (fun j hj => hj.1)
      rcases mem_indices_cons.mp hj with rfl | hold
      · exact Nat.lt_succ_self _
      · exact Nat.lt_succ_of_lt (h.layers.live j hold)
    rw [← hindex'] at hwalked
    exact hwalked.congr (lt_of_lt_of_eq hroomy.pos hframe.depth.symm) (fun _ _ => rfl) rfl fun _ _ => rfl
  · have hsized := hroomy.sized
    rw [← hindex'] at hsized
    refine hsized.congr hframe.depth fun l hl => ?_
    exact (congrFun hframe.next l).trans (next_withLeaf (N := t.index) hl)
  · have hleaves : ∀ j, t₂.tree 0 j = if j = t.index then some { newLeaf t.index with sumLeft := 1 } else t.tree 0 j := by
      intro j
      rw [hframe.leaves, store, tree_setNode, leaves_withLeaf, hgrown.leaves]
      by_cases hj : j = t.index
      · simp [hj]
      · simp [hj]
    rcases mem_cons.mp hu with rfl | hold
    · exact ⟨_, (hleaves _).trans (if_pos rfl), rfl, rfl, rfl⟩
    · obtain ⟨leaf, hleaf⟩ := h.leaves u hold
      refine ⟨leaf, (hleaves _).trans ?_, hleaf.marked, hleaf.parent, hleaf.isLeft⟩
      rw [if_neg (ne_of_lt (h.index_lt hold))]
      exact hleaf.node
  · exact pairwise_cons.mpr ⟨fun u hu => h.index_lt hu, h.sorted⟩
  · exact hframe.aiMap.trans hgrown.aiMap

end Leaves

end Gem5Cxl.L3.StackTree
