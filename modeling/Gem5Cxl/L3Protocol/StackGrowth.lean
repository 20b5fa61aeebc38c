import Gem5Cxl.L3Protocol.StackTree

/-!
# The growth of the stack distance tree

A left leaf may need inner nodes that are not there yet: one in each layer whose
block starts at the leaf and, when the tree is full, a new root above the old one.

* `Layers`: the sums are right in all layers, and no leaf from `N` on was added.
* `Sized`: the shape after `N` leaves were added. `Roomy`: it has room for leaf `N`.
* `addINode_eq`, `addMissing_spec`, `addRoot_eq`: the new nodes count no leaf yet, so
  the sums stay right.
* `updateTree_spec`: before a left leaf is added, every layer has its last node
  above it.
-/
namespace Gem5Cxl.L3.StackTree

open Core Core.BlockSums L1 L2.Indexing L2.StackDist
open StackDistCalc

/-! ## New nodes -/

variable {t : StackDistCalc} {L : Finset Nat} {G : Nat → Prop} {N : Nat} {b i k l : Nat} (m : Nat)

theorem pred_div_of_mod_eq_zero (hN : 0 < N) (h : N % b = 0) : (N - 1) / b + 1 = N / b := by
  obtain ⟨m, rfl⟩ : ∃ m, N = m + 1 := ⟨N - 1, by omega⟩
  rw [Nat.add_sub_cancel, Nat.succ_div, if_pos (Nat.dvd_of_mod_eq_zero h)]

theorem pred_div_of_mod_ne_zero (h : N % b ≠ 0) : (N - 1) / b = N / b := by
  have hN : N ≠ 0 := fun heq => h (by rw [heq, Nat.zero_mod])
  obtain ⟨m, rfl⟩ : ∃ m, N = m + 1 := ⟨N - 1, by omega⟩
  rw [Nat.add_sub_cancel, Nat.succ_div, if_neg fun hdvd => h (Nat.mod_eq_zero_of_dvd hdvd), add_zero]

/-- The layers, when the leaves up to `N` are there: none from `N` on is live or gone. -/
structure Layers (t : StackDistCalc) (L : Finset Nat) (G : Nat → Prop) (N : Nat) : Prop where
  layer : ∀ k < t.treeDepth, LayerOk t L G k
  live : ∀ j ∈ L, j < N
  gone : ∀ j, G j → j < N
  root : (t.tree t.treeDepth 0).isSome
  top : ∀ l i, t.treeDepth < l → t.tree l i = none

structure Grown (t t' : StackDistCalc) : Prop where
  index : t'.index = t.index
  aiMap : t'.aiMap = t.aiMap
  leaves : t'.tree 0 = t.tree 0
  next : t'.nextIndex 0 = t.nextIndex 0

theorem Grown.trans {t₁ t₂ t₃ : StackDistCalc} (h : Grown t₁ t₂) (h' : Grown t₂ t₃) : Grown t₁ t₃ :=
  ⟨h'.index.trans h.index, h'.aiMap.trans h.aiMap, h'.leaves.trans h.leaves, h'.next.trans h.next⟩

def freshNode (N k : Nat) : Node where
  isLeftNode := N / 2 ^ (k + 1) % 2 = 0
  parent := some (k + 2, N / 2 ^ (k + 2))
  nodeIndex := N / 2 ^ (k + 1)

theorem nodeOk_freshNode {depth : Nat} (hlive : ∀ j ∈ L, j < N) (hk : k + 1 ≠ depth)
    (hmod : N % 2 ^ (k + 1) = 0) : NodeOk L G depth k (N / 2 ^ (k + 1)) (freshNode N k) := by
  have hN : N / 2 ^ (k + 1) * 2 ^ (k + 1) = N := Nat.div_mul_cancel (Nat.dvd_of_mod_eq_zero hmod)
  have hstart : 2 * (N / 2 ^ (k + 1)) * 2 ^ k = N := by
    rw [mul_comm 2, mul_assoc, mul_comm 2]
    exact hN
  refine ⟨?_, ?_, nofun, nofun, rfl, rfl, ?_⟩
  · exact (count_eq_zero hlive (le_of_eq hstart.symm)).symm
  · refine (count_eq_zero hlive ?_).symm
    rw [add_mul, hstart]
    exact Nat.le_add_right _ _
  · rw [if_neg hk, ← div_succ N (k + 1)]
    rfl

def withNode (t : StackDistCalc) (N k : Nat) : StackDistCalc :=
  (t.setNext (k + 1) (N / 2 ^ (k + 1) + 1)).store (k + 1, N / 2 ^ (k + 1)) (freshNode N k)

theorem tree_withNode (t : StackDistCalc) (N k l i : Nat) :
    (withNode t N k).tree l i =
      if l = k + 1 ∧ i = N / 2 ^ (k + 1) then some (freshNode N k) else t.tree l i :=
  tree_setNode _ _ _ l i

theorem next_withNode (t : StackDistCalc) (N k l : Nat) :
    (withNode t N k).nextIndex l = if l = k + 1 then N / 2 ^ (k + 1) + 1 else t.nextIndex l :=
  Function.update_apply _ _ _ l

theorem grown_withNode (t : StackDistCalc) (N k : Nat) : Grown t (withNode t N k) := by
  refine ⟨rfl, rfl, tree_setNode_of_ne (Nat.succ_ne_zero k).symm, ?_⟩
  rw [next_withNode, if_neg (Nat.succ_ne_zero k).symm]

theorem LayerOk.withNode (h : LayerOk t L G k) (hlive : ∀ j ∈ L, j < N) (hk : k + 1 ≠ t.treeDepth)
    (hhere : t.nextIndex (k + 1) = N / 2 ^ (k + 1)) (hmod : N % 2 ^ (k + 1) = 0) :
    LayerOk (withNode t N k) L G k := by
  have hnext : (StackTree.withNode t N k).nextIndex (k + 1) = N / 2 ^ (k + 1) + 1 := by
    rw [next_withNode, if_pos rfl]
  constructor
  · intro i node hnode
    rw [tree_withNode] at hnode
    rw [hnext]
    split at hnode
    · rename_i hnew
      rw [hnew.2]
      exact Nat.lt_succ_self _
    · have hused := h.used i node hnode
      rw [hhere] at hused
      exact Nat.lt_succ_of_lt hused
  · intro i node hnode
    rw [tree_withNode] at hnode
    split at hnode
    · rename_i hnew
      cases hnode
      rw [hnew.2]
      exact nodeOk_freshNode hlive hk hmod
    · exact h.nodes i node hnode
  · intro i hi hcov
    rw [tree_withNode]
    split
    · rfl
    · exact h.kept i (by omega) hcov

theorem Layers.withNode (h : Layers t L G N) (hk : k + 1 < t.treeDepth)
    (hhere : t.nextIndex (k + 1) = N / 2 ^ (k + 1)) (hmod : N % 2 ^ (k + 1) = 0) :
    Layers (withNode t N k) L G N := by
  refine ⟨fun j hj => ?_, h.live, h.gone, ?_, fun l i hl => ?_⟩
  · by_cases hjk : j = k
    · subst hjk
      exact (h.layer j hj).withNode h.live (ne_of_lt hk) hhere hmod
    · have hne : j + 1 ≠ k + 1 := fun heq => hjk (Nat.succ.inj heq)
      exact (h.layer j hj).congr (tree_setNode_of_ne hne) rfl (Function.update_of_ne hne _ _)
  · have hroot := h.root
    rw [tree_withNode]
    split
    · rfl
    · exact hroot
  · have hbelow : t.treeDepth < l := hl
    rw [tree_withNode, if_neg (by omega)]
    exact h.top l i hbelow

theorem addINode_eq (h : Layers t L G N) (hk : k + 1 < t.treeDepth)
    (habove : t.nextIndex (k + 2) = N / 2 ^ (k + 2) + 1)
    (hhere : t.nextIndex (k + 1) = N / 2 ^ (k + 1)) :
    t.addINode (k + 1) = .ok (withNode t N k) := by
  -- the node above is there: the leaf `N` below it is still to come
  have hparent : (t.tree (k + 2) (N / 2 ^ (k + 2))).isSome := by
    refine (h.layer (k + 1) hk).kept _ (lt_of_lt_of_eq (Nat.lt_succ_self _) habove.symm) fun hcov => ?_
    exact lt_irrefl N (h.gone N (hcov N rfl))
  rw [addINode, habove, Nat.add_sub_cancel, lookup_eq hparent, hhere]
  rfl

/-- Every layer has its last node above leaf `N`. -/
def Ready (t : StackDistCalc) (N : Nat) : Prop :=
  ∀ k < t.treeDepth, t.nextIndex (k + 1) = N / 2 ^ (k + 1) + 1

theorem addMissing_spec (hN : m ≠ 0 → 0 < N) (hm : m < 31) (hindex : t.index = N)
    (h : Layers t L G N)
    (htop : m < t.treeDepth)
    (habove : ∀ k < t.treeDepth, m ≤ k → t.nextIndex (k + 1) = N / 2 ^ (k + 1) + 1)
    (hbelow : ∀ k < m, t.nextIndex (k + 1) = (N - 1) / 2 ^ (k + 1) + 1) :
    ∃ t', t.addMissing m = .ok t' ∧ Layers t' L G N ∧ Grown t t' ∧ t'.treeDepth = t.treeDepth ∧
      Ready t' N := by
  induction m generalizing t with
  | zero => exact ⟨t, rfl, h, ⟨rfl, rfl, rfl, rfl⟩, rfl, fun k hk => habove k hk (Nat.zero_le k)⟩
  | succ m ih =>
    have hshift : ¬ 31 ≤ m + 1 := Nat.not_le_of_lt hm
    have hhere := hbelow m (Nat.lt_succ_self m)
    have hpos := hN (Nat.succ_ne_zero m)
    rw [addMissing, if_neg hshift, hindex]
    by_cases hmod : N % 2 ^ (m + 1) = 0
    · rw [pred_div_of_mod_eq_zero hpos hmod] at hhere
      have hnode := addINode_eq h htop (habove (m + 1) htop le_rfl) hhere
      obtain ⟨t', hrun, hlayers, hgrown, hdepth, hready⟩ :=
        ih (t := withNode t N m) (fun _ => hpos) (by omega) hindex (h.withNode htop hhere hmod) (Nat.lt_of_succ_lt htop)
          (fun k hk hle => by
            rw [next_withNode]
            split
            · rename_i heq
              rw [heq]
            · exact habove k hk (by omega))
          (fun k hk => by
            rw [next_withNode, if_neg (by omega)]
            exact hbelow k (Nat.lt_succ_of_lt hk))
      refine ⟨t', ?_, hlayers, (grown_withNode t N m).trans hgrown, hdepth, hready⟩
      rw [if_pos hmod, hnode]
      exact hrun
    · rw [pred_div_of_mod_ne_zero hmod] at hhere
      rw [if_neg hmod]
      refine ih (fun _ => hpos) (by omega) hindex h (Nat.lt_of_succ_lt htop) (fun k hk hle => ?_)
        (fun k hk => hbelow k (Nat.lt_succ_of_lt hk))
      by_cases hkm : k = m
      · rw [hkm]
        exact hhere
      · exact habove k hk (by omega)

theorem index_of_addINode {t' : StackDistCalc} (h : t.addINode i = .ok t') :
    t'.index = t.index := by
  obtain ⟨parent, -, hrest⟩ := bind_eq_ok.mp h
  cases hrest
  rfl

/-- At a power of two every layer needs a node, so the two loops agree. -/
theorem addAll_eq (hm : m < 31) (hmod : ∀ k < m, t.index % 2 ^ (k + 1) = 0) :
    t.addAll m = t.addMissing m := by
  induction m generalizing t with
  | zero => rfl
  | succ m ih =>
    rw [addMissing, addAll, if_neg (Nat.not_le_of_lt hm),
      if_pos (hmod m (Nat.lt_succ_self m))]
    cases hstep : t.addINode (m + 1) with
    | error e => rfl
    | ok t' =>
      have hindex := index_of_addINode hstep
      refine ih (by omega) fun k hk => ?_
      rw [hindex]
      exact hmod k (Nat.lt_succ_of_lt hk)

/-! ## A new root -/

def withRoot (t : StackDistCalc) (root : Node) : StackDistCalc :=
  (({ t with treeDepth := t.treeDepth + 1 }.setNext (t.treeDepth + 1) 1).store (t.treeDepth + 1, 0)
    { sumLeft := root.sumRight + root.sumLeft
      discardLeft := root.discardLeft && root.discardRight }).store (t.treeDepth, 0)
    { root with parent := some (t.treeDepth + 1, 0) }

variable {root : Node}

theorem addRoot_eq (h : t.tree t.treeDepth 0 = some root) : t.addRoot = .ok (withRoot t root) := by
  rw [addRoot, deref_eq h]
  rfl

theorem tree_withRoot (t : StackDistCalc) (root : Node) (l i : Nat) :
    (withRoot t root).tree l i =
      if l = t.treeDepth ∧ i = 0 then some { root with parent := some (t.treeDepth + 1, 0) }
      else if l = t.treeDepth + 1 ∧ i = 0 then
        some { sumLeft := root.sumRight + root.sumLeft
               discardLeft := root.discardLeft && root.discardRight }
      else t.tree l i := by
  rw [withRoot, store, tree_setNode, store, tree_setNode]
  rfl

theorem next_withRoot (t : StackDistCalc) (root : Node) (l : Nat) :
    (withRoot t root).nextIndex l = if l = t.treeDepth + 1 then 1 else t.nextIndex l :=
  Function.update_apply _ _ _ l

theorem grown_withRoot (root : Node) (h : 0 < t.treeDepth) : Grown t (withRoot t root) := by
  refine ⟨rfl, rfl, funext fun j => ?_, ?_⟩
  · rw [tree_withRoot, if_neg (by omega), if_neg (by omega)]
  · rw [next_withRoot, if_neg (by omega)]

theorem NodeOk.deeper {depth : Nat} {node : Node} (h : NodeOk L G depth l i node)
    (hl : l + 1 < depth) :
    NodeOk L G (depth + 1) l i node := by
  have hparent := h.parent
  rw [if_neg (by omega)] at hparent
  refine { h with parent := ?_ }
  rw [if_neg (by omega)]
  exact hparent

theorem NodeOk.oldRoot (h : NodeOk L G (l + 1) l 0 root) :
    NodeOk L G (l + 2) l 0 { root with parent := some (l + 2, 0) } := by
  refine { h with parent := ?_ }
  rw [if_neg (by omega)]

/-- The new root has the old one to its left, and nothing to its right. -/
theorem NodeOk.newRoot (h : NodeOk L G (l + 1) l 0 root) (hlive : ∀ j ∈ L, j < 2 ^ (l + 1)) :
    NodeOk L G (l + 2) (l + 1) 0
      { sumLeft := root.sumRight + root.sumLeft
        discardLeft := root.discardLeft && root.discardRight } := by
  refine ⟨?_, ?_, fun hd => ?_, nofun, rfl, rfl, ?_⟩
  · rw [count_succ, ← h.left, ← h.right]
    exact add_comm _ _
  · refine (count_eq_zero hlive ?_).symm
    rw [Nat.one_mul]
  · obtain ⟨hleft, hright⟩ := Bool.and_eq_true_iff.mp hd
    exact covered_succ.mpr ⟨h.discardLeft hleft, h.discardRight hright⟩
  · rw [if_pos rfl]

theorem Layers.withRoot {d : Nat} (h : Layers t L G N) (hd : t.treeDepth = d + 1)
    (hN : N = 2 ^ t.treeDepth) (hnext : t.nextIndex t.treeDepth = 1)
    (hroot : t.tree t.treeDepth 0 = some root) :
    Layers (withRoot t root) L G N := by
  have hdepth : (StackTree.withRoot t root).treeDepth = d + 2 := congrArg (· + 1) hd
  rw [hd] at hN hnext hroot
  have hold := h.layer d (by omega)
  have hrootOk := hold.nodes 0 root hroot
  rw [hd] at hrootOk
  refine ⟨fun k hk => ?_, h.live, h.gone, ?_, fun l i hl => ?_⟩
  · by_cases hnew : k = d + 1
    · subst hnew
      constructor
      · intro i node hnode
        rw [tree_withRoot, if_neg (by omega)] at hnode
        rw [next_withRoot, hd, if_pos rfl]
        split at hnode
        · omega
        · cases (h.top (d + 2) i (by omega)).symm.trans hnode
      · intro i node hnode
        rw [tree_withRoot, if_neg (by omega)] at hnode
        rw [hdepth]
        split at hnode
        · rename_i hhere
          cases hnode
          rw [hhere.2]
          exact hrootOk.newRoot fun j hj => hN ▸ h.live j hj
        · cases (h.top (d + 2) i (by omega)).symm.trans hnode
      · intro i hi _
        rw [next_withRoot, hd, if_pos rfl] at hi
        rw [tree_withRoot, hd, if_neg (by omega), if_pos ⟨rfl, by omega⟩]
        rfl
    · have hk' : k < t.treeDepth := by omega
      have hlayer := h.layer k hk'
      constructor
      · intro i node hnode
        rw [next_withRoot, if_neg (by omega)]
        rw [tree_withRoot] at hnode
        split at hnode
        · rename_i hhere
          have hkd : k = d := by omega
          rw [hhere.2, hkd, hnext]
          exact Nat.one_pos
        · rw [if_neg (by omega)] at hnode
          exact hlayer.used i node hnode
      · intro i node hnode
        rw [tree_withRoot] at hnode
        rw [hdepth]
        split at hnode
        · rename_i hhere
          have hkd : k = d := by omega
          subst hkd
          cases hnode
          rw [hhere.2, hd]
          exact hrootOk.oldRoot
        · rename_i hother
          rw [if_neg (by omega)] at hnode
          have hok := hlayer.nodes i node hnode
          have hused := hlayer.used i node hnode
          rw [hd] at hok hother
          refine hok.deeper ?_
          by_cases hkd : k = d
          · subst hkd
            exact absurd ⟨rfl, by omega⟩ hother
          · omega
      · intro i hi hcov
        rw [next_withRoot, if_neg (by omega)] at hi
        rw [tree_withRoot]
        split
        · rfl
        · rw [if_neg (by omega)]
          exact hlayer.kept i hi hcov
  · rw [hdepth, tree_withRoot, hd, if_neg (by omega), if_pos ⟨rfl, rfl⟩]
    rfl
  · rw [tree_withRoot, if_neg (by omega), if_neg (by omega)]
    exact h.top l i (by omega)

/-! ## The tree for the next leaf -/

/-- The tree after `N` leaves were added. -/
structure Sized (t : StackDistCalc) (N : Nat) : Prop where
  pos : 0 < t.treeDepth
  fits : N ≤ 2 ^ t.treeDepth
  tight : t.treeDepth = 1 ∨ 2 ^ (t.treeDepth - 1) < N
  next : ∀ k < t.treeDepth, t.nextIndex (k + 1) = (N - 1) / 2 ^ (k + 1) + 1

/-- The tree has room for leaf `N`. -/
structure Roomy (t : StackDistCalc) (N : Nat) : Prop where
  pos : 0 < t.treeDepth
  fits : N < 2 ^ t.treeDepth
  tight : t.treeDepth = 1 ∨ 2 ^ (t.treeDepth - 1) ≤ N
  next : Ready t N

theorem Sized.roomy (h : Sized t N) (hodd : N % 2 ≠ 0) : Roomy t N := by
  have hdvd : ∀ k, N % 2 ^ (k + 1) ≠ 0 := by
    intro k hmod
    have htwo : 2 ∣ N := Nat.dvd_trans (Nat.dvd_mul_left 2 (2 ^ k)) (Nat.dvd_of_mod_eq_zero hmod)
    exact hodd (Nat.mod_eq_zero_of_dvd htwo)
  refine ⟨h.pos, lt_of_le_of_ne h.fits fun heq => ?_, h.tight.imp_right le_of_lt, fun k hk => ?_⟩
  · obtain ⟨d, hd⟩ := Nat.exists_eq_succ_of_ne_zero (ne_of_gt h.pos)
    rw [hd] at heq
    exact hdvd d (by rw [heq, Nat.mod_self])
  · rw [h.next k hk, pred_div_of_mod_ne_zero (hdvd k)]

theorem Sized.eq_two_pow (h : Sized t N) (heven : N % 2 = 0) (hpow : isPowerOf2 N = true) :
    N = 2 ^ t.treeDepth := by
  have hN := eq_two_pow_of_isPowerOf2 hpow
  generalize N.log2 = m at hN
  have hle : m ≤ t.treeDepth := by
    have hfits := h.fits
    rw [hN] at hfits
    exact (Nat.pow_le_pow_iff_right Nat.one_lt_two).mp hfits
  have hpos : m ≠ 0 := by
    rintro rfl
    omega
  have hge : t.treeDepth ≤ m := by
    rcases h.tight with hone | htight
    · omega
    · rw [hN] at htight
      have hlt := (Nat.pow_lt_pow_iff_right Nat.one_lt_two).mp htight
      omega
  rw [hN, le_antisymm hle hge]

/-- **The tree before a left leaf.** Every layer has its last node above the leaf to come. -/
theorem updateTree_spec (h : Layers t L G N) (hs : Sized t N) (hindex : t.index = N)
    (heven : N % 2 = 0)
    (hN : N < 2 ^ 30) :
    ∃ t', t.updateTree = .ok t' ∧ Layers t' L G N ∧ Grown t t' ∧ Roomy t' N := by
  obtain ⟨d, hd⟩ := Nat.exists_eq_succ_of_ne_zero (ne_of_gt hs.pos)
  rw [updateTree, hindex]
  by_cases hpow : isPowerOf2 N = true
  · have hfull := hs.eq_two_pow heven hpow
    have hdepth : t.treeDepth < 30 := (Nat.pow_lt_pow_iff_right Nat.one_lt_two).mp (hfull ▸ hN)
    have hpos : 0 < N := by
      rw [hfull]
      exact Nat.two_pow_pos _
    obtain ⟨root, hroot⟩ := Option.isSome_iff_exists.mp h.root
    have hnext : t.nextIndex t.treeDepth = 1 := by
      have hlast := hs.next d (by omega)
      rw [← Nat.succ_eq_add_one, ← hd, Nat.div_eq_of_lt (by omega)] at hlast
      exact hlast
    have hlt : N < 2 ^ (t.treeDepth + 1) := by
      rw [hfull]
      exact Nat.pow_lt_pow_succ Nat.one_lt_two
    obtain ⟨t', hrun, hlayers, hgrown, hdepth', hready⟩ := addMissing_spec (t := withRoot t root)
      t.treeDepth (fun _ => hpos) (by omega) hindex
      (h.withRoot hd hfull hnext hroot) (Nat.lt_succ_self _)
      (fun k hk hle => by
        have hk' : k < t.treeDepth + 1 := hk
        have hkd : k = t.treeDepth := by omega
        rw [next_withRoot, hkd, if_pos rfl, Nat.div_eq_of_lt hlt])
      (fun k hk => by
        rw [next_withRoot, if_neg (by omega)]
        exact hs.next k hk)
    have hall : (withRoot t root).addAll t.treeDepth = (withRoot t root).addMissing t.treeDepth := by
      refine addAll_eq t.treeDepth (by omega) fun k hk => ?_
      have hindex' : (withRoot t root).index = 2 ^ t.treeDepth := hindex.trans hfull
      rw [hindex']
      exact Nat.mod_eq_zero_of_dvd (Nat.pow_dvd_pow 2 hk)
    refine ⟨t', ?_, hlayers, (grown_withRoot root hs.pos).trans hgrown, ?_⟩
    · rw [if_pos hpow, addRoot_eq hroot]
      exact hall.trans hrun
    · have hdeep : t'.treeDepth = t.treeDepth + 1 := hdepth'
      refine ⟨by omega, by rw [hdeep]; exact hlt, .inr ?_, hready⟩
      rw [hdeep, Nat.add_sub_cancel, hfull]
  · have hlt : N < 2 ^ t.treeDepth := by
      refine lt_of_le_of_ne hs.fits fun heq => hpow ?_
      rw [heq]
      exact isPowerOf2_two_pow _
    have hsmall : t.treeDepth - 1 < 30 := by
      rcases hs.tight with hone | htight
      · omega
      · exact (Nat.pow_lt_pow_iff_right Nat.one_lt_two).mp (lt_trans htight hN)
    have hpos : t.treeDepth - 1 ≠ 0 → 0 < N := by
      intro hne
      rcases hs.tight with hone | htight
      · omega
      · exact lt_of_le_of_lt (Nat.zero_le _) htight
    obtain ⟨t', hrun, hlayers, hgrown, hdepth, hready⟩ := addMissing_spec (t.treeDepth - 1) hpos (by omega)
      hindex h (by omega)
      (fun k hk hle => by
        have hkd : k + 1 = t.treeDepth := by omega
        rw [hs.next k hk, hkd, Nat.div_eq_of_lt hlt, Nat.div_eq_of_lt (by omega)])
      (fun k hk => hs.next k (by omega))
    refine ⟨t', ?_, hlayers, hgrown, ?_⟩
    · rw [if_neg hpow]
      exact hrun
    · rw [← hdepth] at hlt
      refine ⟨hdepth ▸ hs.pos, hlt, ?_, hready⟩
      rw [hdepth]
      exact hs.tight.imp_right le_of_lt

end Gem5Cxl.L3.StackTree
