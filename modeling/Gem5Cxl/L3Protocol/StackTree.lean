import Gem5Cxl.Core.BlockSums
import Gem5Cxl.L2Machine.StackDistCalc

/-!
# The sums of the stack distance tree

Node `i` of layer `l + 1` stands for block `i` of that layer: its sums count the
live leaves in the two halves. A node is kept as long as its block has a leaf that
is live or still to come.

* `LayerOk`: what the nodes of a layer say, for a set `L` of live leaves and the
  leaves `G` that are gone.
* `updateSum_spec`: a walk from a leaf to the root brings every layer up to date
  with a change at that leaf, and returns the number of live leaves to its right.
* `getSum_spec`: the same number, read off.
-/
namespace Gem5Cxl.L3.StackTree

open Core Core.BlockSums L1 L2.StackDist StackDistCalc

/-- Node `i` of layer `l + 1` in a tree of the given depth. -/
structure NodeOk (L : Finset Nat) (G : Nat → Prop) (depth l i : Nat) (node : Node) : Prop where
  left : node.sumLeft = count L l (2 * i)
  right : node.sumRight = count L l (2 * i + 1)
  discardLeft : node.discardLeft = true → Covered G l (2 * i)
  discardRight : node.discardRight = true → Covered G l (2 * i + 1)
  index : node.nodeIndex = i
  isLeft : node.isLeftNode = decide (i % 2 = 0)
  parent : node.parent = if l + 1 = depth then none else some (l + 2, i / 2)

/-- Layer `l + 1`. -/
structure LayerOk (t : StackDistCalc) (L : Finset Nat) (G : Nat → Prop) (l : Nat) : Prop where
  used : ∀ i node, t.tree (l + 1) i = some node → i < t.nextIndex (l + 1)
  nodes : ∀ i node, t.tree (l + 1) i = some node → NodeOk L G t.treeDepth l i node
  kept : ∀ i, i < t.nextIndex (l + 1) → ¬ Covered G (l + 1) i → (t.tree (l + 1) i).isSome

/-- Leaf `r` is added or taken out. -/
structure Change (r : Nat) (L L' : Finset Nat) (G G' : Nat → Prop) : Prop where
  live : ∀ j, j ≠ r → (j ∈ L' ↔ j ∈ L)
  gone : ∀ j, j ≠ r → (G' j ↔ G j)
  here : ¬ G r

/-- Everything but the inner nodes. -/
structure Frame (t t' : StackDistCalc) : Prop where
  index : t'.index = t.index
  depth : t'.treeDepth = t.treeDepth
  aiMap : t'.aiMap = t.aiMap
  next : t'.nextIndex = t.nextIndex
  leaves : t'.tree 0 = t.tree 0
  root : (t.tree t.treeDepth 0).isSome → (t'.tree t.treeDepth 0).isSome
  top : ∀ l, t.treeDepth < l → t'.tree l = t.tree l

theorem Frame.trans {t₁ t₂ t₃ : StackDistCalc} (h : Frame t₁ t₂) (h' : Frame t₂ t₃) :
    Frame t₁ t₃ := by
  refine ⟨h'.index.trans h.index, h'.depth.trans h.depth, h'.aiMap.trans h.aiMap, h'.next.trans h.next,
    h'.leaves.trans h.leaves, fun hroot => ?_, fun l hl => ?_⟩
  · have hroot' := h'.root
    rw [h.depth] at hroot'
    exact hroot' (h.root hroot)
  · rw [h'.top l (h.depth ▸ hl), h.top l hl]

/-! ## Nodes by address -/

theorem tree_setNode (t : StackDistCalc) (p : Nat × Nat) (node : Option Node) (l i : Nat) :
    (t.setNode p node).tree l i = if l = p.1 ∧ i = p.2 then node else t.tree l i := by
  rw [setNode]
  by_cases hl : l = p.1
  · subst hl
    by_cases hi : i = p.2
    · simp [hi]
    · simp [hi]
  · simp [hl]

variable {t : StackDistCalc} {l : Nat} {p : Nat × Nat}

theorem tree_setNode_of_ne {node : Option Node} (h : l ≠ p.1) :
    (t.setNode p node).tree l = t.tree l := Function.update_of_ne h _ _

theorem deref_eq {node : Node} (h : t.tree p.1 p.2 = some node) : t.deref p = .ok node := by
  rw [StackDistCalc.deref, h]

theorem lookup_eq {i : Nat} (h : (t.tree l i).isSome) : t.lookup l i = .ok (l, i) := if_pos h

/-! ## One node on the way -/

section Walk

variable {L L' : Finset Nat} {G G' : Nat → Prop} {r depth l i : Nat} {node : Node}
  {discard drop : Bool} {k : Nat}

theorem Covered.of_change (hc : Change r L L' G G') (hi : r / 2 ^ l ≠ i) :
    Covered G' l i ↔ Covered G l i := by
  refine forall_congr' fun j => imp_congr_right fun hj => hc.gone j ?_
  rintro rfl
  exact hi hj

theorem NodeOk.other (h : NodeOk L G depth l i node) (hc : Change r L L' G G')
    (hi : r / 2 ^ (l + 1) ≠ i) : NodeOk L' G' depth l i node := by
  have hpath := mt (div_succ_eq_iff r l i).mpr hi
  obtain ⟨hleft, hright⟩ := not_or.mp hpath
  exact ⟨h.left.trans (count_congr hc.live hleft).symm, h.right.trans (count_congr hc.live hright).symm,
    fun hd => (Covered.of_change hc hleft).mpr (h.discardLeft hd),
    fun hd => (Covered.of_change hc hright).mpr (h.discardRight hd), h.index, h.isLeft, h.parent⟩

theorem NodeOk.summed (h : NodeOk L G depth l (r / 2 ^ (l + 1)) node)
    (hc : Change r L L' G G') (hdiscard : discard = true → Covered G' l (r / 2 ^ l)) :
    NodeOk L' G' depth l (r / 2 ^ (l + 1))
      (StackDistCalc.summed node (decide (r / 2 ^ l % 2 = 0)) (count L' l (r / 2 ^ l))
        discard) := by
  have hdiv := div_succ r l
  unfold StackDistCalc.summed
  by_cases heven : r / 2 ^ l % 2 = 0
  · have hpath : r / 2 ^ l = 2 * (r / 2 ^ (l + 1)) := by omega
    have hother : r / 2 ^ l ≠ 2 * (r / 2 ^ (l + 1)) + 1 := by omega
    simp only [heven, decide_true, if_true, Bool.and_true, Bool.not_true, Bool.and_false, Bool.or_false]
    refine ⟨by rw [hpath], h.right.trans (count_congr hc.live hother).symm, ?_, ?_, h.index, h.isLeft, h.parent⟩
    · intro hd
      simp only [Bool.or_eq_true, Bool.and_eq_true] at hd
      rw [← hpath]
      rcases hd with hold | hnew
      · -- `r` is not gone, so its half was not discarded before
        exact absurd (h.discardLeft hold r hpath) hc.here
      · exact hdiscard hnew.1
    · exact fun hd => (Covered.of_change hc hother).mpr (h.discardRight hd)
  · have hpath : r / 2 ^ l = 2 * (r / 2 ^ (l + 1)) + 1 := by omega
    have hother : r / 2 ^ l ≠ 2 * (r / 2 ^ (l + 1)) := by omega
    simp only [heven, decide_false, Bool.false_eq_true, if_false, Bool.and_true, Bool.not_false, Bool.and_false,
      Bool.or_false]
    refine ⟨h.left.trans (count_congr hc.live hother).symm, by rw [hpath], ?_, ?_, h.index, h.isLeft, h.parent⟩
    · exact fun hd => (Covered.of_change hc hother).mpr (h.discardLeft hd)
    · intro hd
      simp only [Bool.or_eq_true, Bool.and_eq_true] at hd
      rw [← hpath]
      rcases hd with hold | hnew
      · exact absurd (h.discardRight hold r hpath) hc.here
      · exact hdiscard hnew.1

theorem NodeOk.unneeded {sum : Nat} (h : NodeOk L G depth l i node)
    (hun : StackDistCalc.unneeded node sum discard = true) :
    Covered G (l + 1) i ∧ l + 1 ≠ depth := by
  simp only [StackDistCalc.unneeded, Bool.and_eq_true] at hun
  obtain ⟨⟨⟨⟨hleft, hright⟩, -⟩, hparent⟩, -⟩ := hun
  refine ⟨covered_succ.mpr ⟨h.discardLeft hleft, h.discardRight hright⟩, fun heq => ?_⟩
  rw [h.parent, if_pos heq] at hparent
  cases hparent

/-! ## One layer on the way -/

/-- The tree after the walk has passed layer `l + 1`. -/
def passed (t : StackDistCalc) (l i : Nat) (node : Node) (drop : Bool) : StackDistCalc :=
  if drop then ((t.store (l + 1, i) node).erase (l + 1, i)).erase (l + 1, i) else t.store (l + 1, i) node

theorem tree_passed (t : StackDistCalc) (l i : Nat) (node : Node) (drop : Bool) (k j : Nat) :
    (passed t l i node drop).tree k j =
      if k = l + 1 ∧ j = i then if drop then none else some node else t.tree k j := by
  cases drop with
  | false => exact tree_setNode t (l + 1, i) (some node) k j
  | true =>
    simp only [passed, if_true, erase, store, tree_setNode]
    split
    · rfl
    · rfl

theorem passed_depth (t : StackDistCalc) (l i : Nat) (node : Node) (drop : Bool) :
    (passed t l i node drop).treeDepth = t.treeDepth ∧
    (passed t l i node drop).nextIndex = t.nextIndex := by
  cases drop with
  | false | true => exact ⟨rfl, rfl⟩

variable {t : StackDistCalc}

theorem frame_passed (hl : l < t.treeDepth)
    (hroot : drop = true → l + 1 ≠ t.treeDepth) : Frame t (passed t l i node drop) := by
  have hother : ∀ k, k ≠ l + 1 → (passed t l i node drop).tree k = t.tree k := by
    intro k hk
    funext j
    rw [tree_passed, if_neg fun heq => hk heq.1]
  have hleaves := hother 0 (Nat.succ_ne_zero l).symm
  have htop : ∀ k, t.treeDepth < k → (passed t l i node drop).tree k = t.tree k :=
    fun k hk => hother k (by omega)
  have hkeep : (t.tree t.treeDepth 0).isSome → ((passed t l i node drop).tree t.treeDepth 0).isSome := by
    intro h
    rw [tree_passed]
    split
    · rename_i hhere
      cases drop with
      | false => rfl
      | true => exact absurd hhere.1.symm (hroot rfl)
    · exact h
  cases drop with
  | false | true => exact ⟨rfl, rfl, rfl, rfl, hleaves, hkeep, htop⟩

theorem LayerOk.congr {t' : StackDistCalc} (h : LayerOk t L G k)
    (htree : t'.tree (k + 1) = t.tree (k + 1)) (hdepth : t'.treeDepth = t.treeDepth)
    (hnext : t'.nextIndex (k + 1) = t.nextIndex (k + 1)) : LayerOk t' L G k := by
  constructor
  · intro i node hnode
    rw [htree] at hnode
    rw [hnext]
    exact h.used i node hnode
  · intro i node hnode
    rw [htree] at hnode
    rw [hdepth]
    exact h.nodes i node hnode
  · intro i hi hcov
    rw [hnext] at hi
    rw [htree]
    exact h.kept i hi hcov

theorem LayerOk.passed (h : LayerOk t L G k) (hk : k ≠ l) :
    LayerOk (passed t l i node drop) L G k := by
  obtain ⟨hdepth, hnext⟩ := passed_depth t l i node drop
  refine h.congr (funext fun j => ?_) hdepth (congrFun hnext _)
  rw [tree_passed, if_neg (by omega)]

theorem LayerOk.pass (h : LayerOk t L G l) (hc : Change r L L' G G')
    (hpath : r / 2 ^ (l + 1) < t.nextIndex (l + 1))
    (hnode : NodeOk L' G' t.treeDepth l (r / 2 ^ (l + 1)) node)
    (hdrop : drop = true → Covered G' (l + 1) (r / 2 ^ (l + 1))) :
    LayerOk (StackTree.passed t l (r / 2 ^ (l + 1)) node drop) L' G' l := by
  obtain ⟨hdepth, hnext⟩ := passed_depth t l (r / 2 ^ (l + 1)) node drop
  constructor
  · intro i node' hnode'
    rw [tree_passed] at hnode'
    rw [hnext]
    split at hnode'
    · rename_i hhere
      rw [hhere.2]
      exact hpath
    · exact h.used i node' hnode'
  · intro i node' hnode'
    rw [tree_passed] at hnode'
    rw [hdepth]
    split at hnode'
    · rename_i hhere
      split at hnode'
      · cases hnode'
      · cases hnode'
        rw [hhere.2]
        exact hnode
    · rename_i hother
      exact (h.nodes i node' hnode').other hc fun heq => hother ⟨rfl, heq.symm⟩
  · intro i hi hcov
    rw [hnext] at hi
    rw [tree_passed]
    split
    · rename_i hhere
      cases drop with
      | false => rfl
      | true => exact absurd (hhere.2 ▸ hdrop rfl) hcov
    · rename_i hother
      have hne : r / 2 ^ (l + 1) ≠ i := fun heq => hother ⟨rfl, heq.symm⟩
      exact h.kept i hi fun hgone => hcov ((Covered.of_change hc hne).mpr hgone)

theorem LayerOk.above (h : LayerOk t L G l) (hr : ¬ G r)
    (hnext : r / 2 ^ (l + 1) < t.nextIndex (l + 1)) :
    ∃ node, t.tree (l + 1) (r / 2 ^ (l + 1)) = some node ∧
      NodeOk L G t.treeDepth l (r / 2 ^ (l + 1)) node := by
  obtain ⟨node, hnode⟩ := Option.isSome_iff_exists.mp (h.kept _ hnext fun hcov => hr (hcov r rfl))
  exact ⟨node, hnode, h.nodes _ node hnode⟩

/-! ## The walks -/

theorem NodeOk.dist (h : NodeOk L G depth l (r / 2 ^ (l + 1)) node) :
    (if decide (r / 2 ^ l % 2 = 0) = true then above L r l + node.sumRight else above L r l) =
      BlockSums.above L r (l + 1) := by
  have hdiv := div_succ r l
  rw [above_succ]
  by_cases heven : r / 2 ^ l % 2 = 0
  · have hright : 2 * (r / 2 ^ (l + 1)) + 1 = r / 2 ^ l + 1 := by omega
    rw [if_pos (decide_eq_true heven), if_pos heven, h.right, hright]
  · rw [if_neg (by simp [heven]), if_neg heven, add_zero]

theorem getSum_spec (hlayers : ∀ k < t.treeDepth, LayerOk t L G k) (hr : ¬ G r)
    (hnext : ∀ k < t.treeDepth, r / 2 ^ (k + 1) < t.nextIndex (k + 1)) (fuel : Nat)
    (hl : l < t.treeDepth) (hfuel : t.treeDepth ≤ fuel + l) :
    t.getSum fuel (l + 1, r / 2 ^ (l + 1)) (decide (r / 2 ^ l % 2 = 0)) (above L r l) =
      .ok (above L r t.treeDepth) := by
  induction fuel generalizing l with
  | zero => omega
  | succ fuel ih =>
    obtain ⟨node, hnode, hok⟩ := (hlayers l hl).above hr (hnext l hl)
    rw [getSum, deref_eq hnode, ok_bind]
    simp only [hok.dist, hok.parent]
    by_cases htop : l + 1 = t.treeDepth
    · rw [if_pos htop, htop]
      rfl
    · rw [if_neg htop, hok.isLeft, ← div_succ r (l + 1)]
      exact ih (by omega) (by omega)

theorem updateSum_spec (hc : Change r L L' G G') (fuel : Nat)
    (hdone : ∀ k < l, LayerOk t L' G' k) (htodo : ∀ k < t.treeDepth, l ≤ k → LayerOk t L G k)
    (hnext : ∀ k < t.treeDepth, r / 2 ^ (k + 1) < t.nextIndex (k + 1)) (hl : l < t.treeDepth)
    (hdiscard : discard = true → Covered G' l (r / 2 ^ l)) (hfuel : t.treeDepth ≤ fuel + l) :
    ∃ t', updateSum fuel t (l + 1, r / 2 ^ (l + 1)) (decide (r / 2 ^ l % 2 = 0))
        (count L' l (r / 2 ^ l)) l (above L r l) discard = .ok (above L r t.treeDepth, t') ∧
      (∀ k < t.treeDepth, LayerOk t' L' G' k) ∧ Frame t t' := by
  induction fuel generalizing l t discard with
  | zero => omega
  | succ fuel ih =>
    obtain ⟨old, hold, hok⟩ := (htodo l hl le_rfl).above hc.here (hnext l hl)
    have hnew := hok.summed hc hdiscard
    generalize hnode : StackDistCalc.summed old (decide (r / 2 ^ l % 2 = 0)) (count L' l (r / 2 ^ l))
      discard = node at hnew
    generalize hdrop : StackDistCalc.unneeded node (count L' l (r / 2 ^ l)) discard = drop
    have hgone : drop = true → Covered G' (l + 1) (r / 2 ^ (l + 1)) ∧ l + 1 ≠ t.treeDepth :=
      fun h => hnew.unneeded (hdrop.trans h)
    have hframe : Frame t (passed t l (r / 2 ^ (l + 1)) node drop) :=
      frame_passed hl fun h => (hgone h).2
    have hdone' : ∀ k < l + 1, LayerOk (passed t l (r / 2 ^ (l + 1)) node drop) L' G' k := by
      intro k hk
      by_cases hkl : k = l
      · subst hkl
        exact (htodo k hl le_rfl).pass hc (hnext k hl) hnew fun h => (hgone h).1
      · exact (hdone k (by omega)).passed hkl
    rw [updateSum, deref_eq hold, ok_bind]
    simp only [hok.dist, hnode, hdrop, hnew.index, hnew.parent]
    by_cases htop : l + 1 = t.treeDepth
    · rw [if_pos htop, ← htop]
      exact ⟨_, rfl, hdone', hframe⟩
    · rw [if_neg htop, hnew.isLeft, hnew.left, hnew.right, ← count_succ, ← div_succ r (l + 1)]
      have hdepth := hframe.depth
      obtain ⟨t', hrun, hlayers, hframe'⟩ := ih hdone'
        (fun k hk hle => (htodo k (hdepth ▸ hk) (by omega)).passed (by omega))
        (fun k hk => hframe.next ▸ hnext k (hdepth ▸ hk)) (by omega) (fun h => (hgone h).1) (by omega)
      rw [hdepth] at hrun hlayers
      exact ⟨t', hrun, hlayers, hframe.trans hframe'⟩

end Walk

end Gem5Cxl.L3.StackTree
