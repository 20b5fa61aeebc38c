import Gem5Cxl.L3Protocol.TrieChanges

/-!
# What removal does to a trie

A node with two kids only loses its value. Any other node is taken out and its
kid moves up; if that leaves its parent with no value and one kid, the parent is
taken out the same way, once.

* `detach_spec`: the cells after a node was taken out.
* `settled`: the parent is in shape afterwards, or it has to go as well.
* `remove_spec`: the entry of the handle is gone, and no other entry has moved.
-/
namespace Gem5Cxl.L3.TrieRemoval

open Core Core.Tree L1 L2.Tries L3.TrieShape Trie L3.TrieChanges List

variable {n : Nat} {V : Type} {heap heap' : Nat → Option (Node n V)} {g : Frame (Cell n V)}
  {c : List (Frame (Cell n V))} {k : BitVec n × Nat} {q : Nat} {parent : Option Nat}
  (T : Core.Tree (Cell n V))
  (fuel : Nat)

/-! ## A lone kid is the first -/

def packed : Core.Tree (Cell n V) → Core.Tree (Cell n V)
  | .node q d .nil (.node k b l r) => .node q d (.node k b l r) .nil
  | t => t

theorem packed_cases :
    packed T = T ∨ ∃ q d k b l r, T = .node q d .nil (.node k b l r) ∧
      packed T = .node q d (.node k b l r) .nil := by
  unfold packed
  split
  · exact .inr ⟨_, _, _, _, _, _, rfl, rfl⟩
  · exact .inl rfl

theorem elems_packed : (packed T).elems = T.elems := by
  rcases packed_cases T with h | ⟨q, d, k, b, l, r, rfl, h⟩
  · rw [h]
  · rw [h]
    simp [Tree.elems]

variable {d : Cell n V} {S l : Core.Tree (Cell n V)} {t : Trie n V} {id : Nat}

theorem linked_packed {q : Nat} {a b : Core.Tree (Cell n V)} {parent : Option Nat}
    (hnode : heap q = some (Node.packed
      { key := d.key, mask := leadMask n d.width, value := d.value, parent, kids0 := a.root,
        kids1 := b.root }))
    (ha : Linked (Holds heap) (some q) a) (hb : Linked (Holds heap) (some q) b) :
    Linked (Holds heap) parent (packed (.node q d a b)) := by
  cases a with
  | nil =>
    cases b with
    | nil => exact ⟨hnode, ha, hb⟩
    | node k e l r => exact ⟨hnode, hb, ha⟩
  | node k e l r =>
    cases b with
    | nil | node k' e' l' r' => exact ⟨hnode, ha, hb⟩

theorem linked_packed_fill (hnode : heap g.id = some (slotNode g parent S.root).packed)
    (hS : Linked (Holds heap) (some g.id) S) (hother : Linked (Holds heap) (some g.id) g.other) :
    Linked (Holds heap) parent (packed (g.fill S)) := by
  cases g with
  | inLeft id d r => exact linked_packed hnode hS hother
  | inRight id d l => exact linked_packed hnode hother hS

theorem root_packed_fill (g : Frame (Cell n V)) (S : Core.Tree (Cell n V)) :
    (packed (g.fill S)).root = some g.id := by
  rcases packed_cases (g.fill S) with h | ⟨q, d, k, b, l, r, hfill, h⟩
  · rw [h]
    cases g <;> rfl
  · cases g with
    | inLeft id e o | inRight id e o =>
      cases hfill
      rfl

theorem elems_plug_packed (c : List (Frame (Cell n V))) (T : Core.Tree (Cell n V)) :
    (plug c (packed T)).elems.Perm (plug c T).elems := by
  refine elems_plug.trans ?_
  rw [elems_packed]
  exact elems_plug.symm

/-! ## Taking a node out -/

theorem setParent_spec (hl : Linked (Holds t.heap) (some id) l) (hnodup : l.ids.Nodup) :
    ∃ t', t.setParent l.root q = .ok t' ∧ t'.next = t.next ∧ Linked (Holds t'.heap) (some q) l ∧
      ∀ i, i ∉ l.ids → t'.heap i = t.heap i := by
  cases l with
  | nil => exact ⟨t, rfl, rfl, trivial, fun _ _ => rfl⟩
  | node k b l r =>
    refine ⟨t.store k { key := b.key, mask := leadMask n b.width, value := b.value, parent := some q,
                        kids0 := l.root, kids1 := r.root }, ?_, rfl,
      linked_reroot hl (by simp [Holds, store]) fun e he => ?_, fun i hi => ?_⟩
    · rw [Tree.root, setParent, deref_eq hl.1]
      rfl
    · simp [store, (below_root hnodup he).2]
    · have hne : i ≠ k := fun heq => hi (heq ▸ mem_cons_self)
      simp [store, hne]

theorem whichKid_slotNode (hother : g.other.root ≠ some id) :
    (slotNode g parent (some id)).whichKid id = .ok (side g) := by
  cases g with
  | inLeft q d r => simp [slotNode, side, Node.whichKid]
  | inRight q d l =>
    have hne : l.root ≠ some id := hother
    simp [slotNode, side, Node.whichKid, Frame.other, hne]

theorem detach_spec (h : Laid t (plug (g :: c) (.node id d l .nil))) :
    ∃ t', t.detach id = .ok (g.id, t') ∧ Laid t' (plug c (packed (g.fill l))) := by
  obtain ⟨hctx, hcell, hl, -⟩ := linked_plug.1 h.linked
  obtain ⟨hnode, hother, hc⟩ := linkedCtx_cons.1 hctx
  obtain ⟨hS, hgS, haround⟩ := nodup_parts h.nodup
  have hids : (node id d l .nil).ids = id :: l.ids := by simp [Tree.ids, Tree.elems]
  rw [hids] at hS hgS
  obtain ⟨hidl, hnodupl⟩ := nodup_cons.1 hS
  obtain ⟨-, hgl⟩ := not_or.1 (mt mem_cons.2 hgS)
  obtain ⟨t₁, hset, hnext, hl₁, hsame⟩ := setParent_spec (q := g.id) hl hnodupl
  have hderef₁ : t₁.deref g.id = .ok (slotNode g (parentOf c) (some id)) := by
    rw [Trie.deref, hsame _ hgl, hnode]
    rfl
  have hout : ∀ e ∈ around g c, e.1 ≠ g.id ∧ e.1 ≠ id ∧ e.1 ∉ l.ids := by
    intro e he
    obtain ⟨hne, hnot⟩ := haround e he
    rw [hids] at hnot
    exact ⟨hne, not_or.1 (mt mem_cons.2 hnot)⟩
  have hroot : g.other.root ≠ some id := by
    intro heq
    cases ho : g.other with
    | nil =>
      rw [ho] at heq
      cases heq
    | node k b l' r' =>
      rw [ho] at heq
      cases heq
      have hmem : (id, b) ∈ around g c := mem_append_left _ (by rw [ho]; exact mem_cons_self)
      exact (hout _ hmem).2.1 rfl
  have hperm : (plug c (packed (g.fill l))).ids.Perm (plug (g :: c) l).ids :=
    (elems_plug_packed c (g.fill l)).map Prod.fst
  refine ⟨(t₁.free id).store g.id (slotNode g (parentOf c) l.root).packed, ?_, ?_, ?_, ?_⟩
  · rw [detach, deref_eq hcell, show parentOf (g :: c) = some g.id from rfl]
    simp only [hset, ok_bind, hderef₁, whichKid_slotNode hroot, slotNode_setKid]
    rfl
  · have hrest : ∀ e ∈ around g c,
        ((t₁.free id).store g.id (slotNode g (parentOf c) l.root).packed).heap e.1 = t.heap e.1 := by
      intro e he
      obtain ⟨hne, hne', hnot⟩ := hout e he
      simp [store, free, hne, hne', hsame _ hnot]
    refine linked_plug.2 ⟨?_, linked_packed_fill (by simp [store]) ?_ ?_⟩
    · rw [root_packed_fill]
      exact linkedCtx_frame hc fun e he => hrest e (mem_append_right _ he)
    · refine linked_frame hl₁ fun e he => ?_
      have hin : e.1 ∈ l.ids := mem_map_of_mem he
      have hne : e.1 ≠ g.id := fun heq => hgl (heq ▸ hin)
      have hne' : e.1 ≠ id := fun heq => hidl (heq ▸ hin)
      simp [store, free, hne, hne']
    · exact linked_frame hother fun e he => hrest e (mem_append_left _ he)
  · rw [hperm.nodup_iff, ids_plug_cons.nodup_iff]
    have hbefore := ids_plug_cons.nodup_iff.1 h.nodup
    rw [hids] at hbefore
    exact (nodup_cons.1 hbefore).2
  · intro i hi
    have hbefore : i ∈ (plug (g :: c) (.node id d l .nil)).ids := by
      rw [ids_plug_cons.mem_iff, hids]
      exact mem_cons_of_mem _ (ids_plug_cons.mem_iff.1 (hperm.mem_iff.1 hi))
    exact hnext ▸ h.fresh i hbefore

/-! ## The parent afterwards -/

theorem label_isSome (S : Core.Tree (Cell n V)) : (S.label Cell.lead).isSome = S.root.isSome := by
  cases S with
  | nil => rfl
  | node id d l r => rfl

theorem packed_fill_nil (g : Frame (Cell n V)) :
    packed (g.fill .nil) = .node g.id g.data g.other .nil := by
  cases g with
  | inLeft id d r =>
    cases r with
    | nil => rfl
    | node k b l' r' => rfl
  | inRight id d l =>
    cases l with
    | nil => rfl
    | node k b l' r' => rfl

theorem packed_fill (hfits : Fits g (some k)) (hS : (S.label Cell.lead).isSome) :
    packed (g.fill S) = g.fill S := by
  cases S with
  | nil => cases hS
  | node i b l r =>
    cases g with
    | inLeft id d o =>
      cases o with
      | nil => rfl
      | node k' b' l' r' => rfl
    | inRight id d o =>
      cases o with
      | nil => exact absurd (hfits.order rfl) (by simp [Tree.label])
      | node k' b' l' r' => rfl

/-- The test whether the parent has to go as well. -/
def collapses (parent : Node n V) : Bool :=
  parent.kids1.isNone && parent.value.isNone && parent.parent.isSome

/-- Only the root's prefix is empty. -/
theorem width_pos {k : Option (BitVec n × Nat)} (hctx : EverywhereCtx Cell.lead Local (g :: c) k)
    (hparent : (parentOf c).isSome) : 0 < g.data.width := by
  cases c with
  | nil => cases hparent
  | cons g' c' =>
    obtain ⟨-, -, hctx'⟩ := everywhereCtx_cons.1 hctx
    exact Nat.zero_lt_of_lt (everywhereCtx_cons.1 hctx').1.extends.1

theorem not_collapses (hctx : EverywhereCtx Cell.lead Local (g :: c) (S.label Cell.lead)) :
    collapses (slotNode g (parentOf c) S.root) = false := by
  rw [collapses, Bool.and_eq_false_iff, Bool.and_eq_false_iff]
  cases hparent : (parentOf c).isSome with
  | false => exact .inr hparent
  | true =>
    cases hvalue : g.data.value with
    | some v => exact .inl (.inr (by simp [hvalue]))
    | none =>
      have hpos := width_pos hctx hparent
      have hfits := (everywhereCtx_cons.1 hctx).1
      refine .inl (.inl ?_)
      cases g with
      | inLeft id d o | inRight id d o =>
        have hfull := hfits.full hvalue hpos
        rw [label_isSome] at hfull
        simpa [slotNode, side, Frame.other] using hfull

theorem removeNode_detach {t₁ : Trie n V} {p : Nat} {node parent : Node n V}
    (hnode : t.deref p = .ok node) (hkids : node.kids1 = none) (hdetach : t.detach p = .ok (q, t₁))
    (hparent : t₁.deref q = .ok parent) :
    removeNode (fuel + 1) t p =
      if collapses parent then (removeNode fuel t₁ q).map fun r => (node.value, r.2)
      else .ok (node.value, t₁) := by
  rw [removeNode, hnode]
  simp only [hkids, hdetach, ok_bind, hparent, Option.isSome_none, Bool.false_eq_true, if_false]
  rw [collapses]
  split
  · cases removeNode fuel t₁ q with
    | error e => rfl
    | ok r => rfl
  · rfl

theorem remove_lift (h : Laid t (plug (g :: c) (.node id d l .nil)))
    (hctx : EverywhereCtx Cell.lead Local (g :: c) (some d.lead))
    (hk : l.label Cell.lead = some k) (hext : Extends d k) (hl : Shaped l) :
    ∃ t', removeNode (fuel + 1) t id = .ok (d.value, t') ∧ Laid t' (plug (g :: c) l) ∧
      Shaped (plug (g :: c) l) := by
  obtain ⟨hfits, hother, hrest⟩ := everywhereCtx_cons.1 hctx
  have hgd := hfits.extends
  have hctx' : EverywhereCtx Cell.lead Local (g :: c) (l.label Cell.lead) := by
    refine everywhereCtx_cons.2 ⟨?_, hother, hrest⟩
    rw [hk]
    refine hfits.replace ⟨Nat.lt_trans hgd.1 hext.1, hgd.2.trans (hext.2.mono (Nat.le_of_lt hgd.1))⟩ ?_
    exact (hext.2 g.data.width hgd.1).symm
  obtain ⟨-, hcell, -⟩ := linked_plug.1 h.linked
  obtain ⟨t', hdetach, hlaid⟩ := detach_spec h
  rw [packed_fill hfits (by rw [hk]; rfl)] at hlaid
  obtain ⟨hnode, -⟩ := linkedCtx_cons.1 (linked_plug.1 (show Linked _ none (plug (g :: c) l) from hlaid.linked)).1
  have hparent : t'.deref g.id = .ok (slotNode g (parentOf c) l.root) := by rw [Trie.deref, hnode]
  refine ⟨t', ?_, hlaid, everywhere_plug.2 ⟨hctx', hl⟩⟩
  rw [removeNode_detach fuel (deref_eq hcell) rfl hdetach hparent, not_collapses hctx']
  rfl

theorem fits_alone {k : Option (BitVec n × Nat)} (hfits : Fits g k)
    (hfull : g.data.value = none → ¬ 0 < g.data.width) :
    Local g.data (g.other.label Cell.lead) none := by
  have hnone : ∀ k ∈ none, Extends g.data k := nofun
  cases g with
  | inLeft id d r =>
    exact ⟨hfits.width, hfits.tidy, hfits.right, hnone, nofun, nofun,
      fun hvalue hpos => absurd hpos (hfull hvalue)⟩
  | inRight id d l =>
    exact ⟨hfits.width, hfits.tidy, hfits.left, hnone, nofun, nofun,
      fun hvalue hpos => absurd hpos (hfull hvalue)⟩

theorem fits_other_kid (hfits : Fits g (some k)) (hvalue : g.data.value = none)
    (hpos : 0 < g.data.width) : ∃ k', g.other.label Cell.lead = some k' ∧ Extends g.data k' := by
  cases g with
  | inLeft id d r =>
    obtain ⟨k', hk'⟩ := Option.isSome_iff_exists.1 (hfits.full hvalue hpos)
    exact ⟨k', hk', hfits.right k' hk'⟩
  | inRight id d l =>
    obtain ⟨k', hk'⟩ := Option.isSome_iff_exists.1 (hfits.order rfl)
    exact ⟨k', hk', hfits.left k' hk'⟩

/-! ## Removal -/

theorem remove_leaf (h : Rep t (plug (g :: c) (.node id d .nil .nil))) :
    ∃ t' T', removeNode (fuel + 2) t id = .ok (d.value, t') ∧ Rep t' T' ∧
      (entries T').Perm (entries (plug (g :: c) .nil)) := by
  obtain ⟨hctx, -⟩ := everywhere_plug.1 h.shaped
  obtain ⟨hfits, hother, hrest⟩ := everywhereCtx_cons.1 hctx
  obtain ⟨-, hcell, -⟩ := linked_plug.1 h.linked
  obtain ⟨t₁, hdetach, hlaid⟩ := detach_spec h.toLaid
  have hperm : (entries (plug c (packed (g.fill .nil)))).Perm (entries (plug (g :: c) .nil)) :=
    (elems_plug_packed c (g.fill .nil)).filterMap entryOf
  have hrooted : ∃ l r, plug c (.node g.id g.data g.other .nil) = .node 0 ⟨0#n, 0, none⟩ l r := by
    cases g with
    | inLeft id' d' o | inRight id' d' o => exact plug_node_root h.rooted
  rw [packed_fill_nil] at hlaid hperm
  obtain ⟨-, hparentCell, -⟩ := linked_plug.1 hlaid.linked
  have hrun := removeNode_detach (fuel + 1) (deref_eq hcell) rfl hdetach (deref_eq hparentCell)
  by_cases hkeep : g.data.value = none → (parentOf c).isSome = false
  · have hroot : g.data.value = none → ¬ 0 < g.data.width := by
      intro hvalue
      cases c with
      | cons g' c' => cases hkeep hvalue
      | nil =>
        obtain ⟨l, r, hplug⟩ := hrooted
        injection hplug with _ hdata
        simp [hdata]
    refine ⟨t₁, _, ?_, ⟨hlaid, everywhere_plug.2 ⟨hrest, fits_alone hfits hroot, hother, trivial⟩, hrooted⟩, hperm⟩
    rw [hrun, if_neg]
    rw [Bool.not_eq_true, collapses, Bool.and_eq_false_iff, Bool.and_eq_false_iff]
    cases hvalue : g.data.value with
    | none => exact .inr (hkeep hvalue)
    | some v => exact .inl (.inr rfl)
  · obtain ⟨hvalue, hparent⟩ := Classical.not_imp.1 hkeep
    cases c with
    | nil => exact absurd rfl hparent
    | cons g' c' =>
      -- the parent goes too, and its other kid moves up
      obtain ⟨k, hk, hext⟩ := fits_other_kid hfits hvalue (width_pos hctx rfl)
      obtain ⟨t', hrun', hlaid', hshaped⟩ := remove_lift fuel hlaid hrest hk hext hother
      refine ⟨t', plug (g' :: c') g.other, ?_, ⟨hlaid', hshaped, plug_root g' c' _ _ hrooted⟩, ?_⟩
      · rw [hrun, hrun']
        simp [collapses, hvalue, parentOf, Except.map, Tree.root]
      · refine .trans (entries_plug.trans ?_) hperm
        refine .trans (.of_eq ?_) entries_plug.symm
        simp [entries_node, entryOf, hvalue]

/-- **Removal.** The entry of the handle is gone, and nothing else changes. -/
theorem remove_spec {T : Core.Tree (Cell n V)} (h : Rep t T) {e : Entry n V} (he : e ∈ entries T) :
    ∃ t' T', t.remove e.handle = .ok (some e.value, t') ∧ Rep t' T' ∧
      (entries T).Perm (e :: entries T') := by
  obtain ⟨c, l, r, rfl⟩ := exists_focus (mem_entries.1 he)
  cases c with
  | nil =>
    -- the root has no value
    obtain ⟨a, b, hroot⟩ := h.rooted
    injection hroot with _ hdata
    cases congrArg Cell.value hdata
  | cons g c =>
    obtain ⟨-, hcell, -⟩ := linked_plug.1 h.linked
    obtain ⟨hctx, hlocal, hsl, -⟩ := everywhere_plug.1 h.shaped
    have hgone : ∀ S : Core.Tree (Cell n V), (entries S).Perm (entries l ++ entries r) →
        (entries (plug (g :: c) (.node e.handle ⟨e.key, e.width, some e.value⟩ l r))).Perm
          (e :: entries (plug (g :: c) S)) := by
      intro S hS
      refine entries_relink ?_
      rw [entries_node]
      exact (hS.symm.cons e)
    cases r with
    | node k b l' r' =>
      refine ⟨_, _, ?_, rep_store none h fun _ _ => rfl, hgone _ ?_⟩
      · rw [remove, removeNode, deref_eq hcell]
        rfl
      · simp [entries_node, entryOf]
    | nil =>
      cases l with
      | node k b l' r' =>
        obtain ⟨t', hrun, hlaid, hshaped⟩ := remove_lift n h.toLaid hctx rfl (hlocal.left _ rfl) hsl
        refine ⟨t', _, hrun, ⟨hlaid, hshaped, plug_root g c _ _ h.rooted⟩, hgone _ ?_⟩
        simp
      | nil =>
        have hwidth : 0 < n := Nat.lt_of_lt_of_le (Nat.zero_lt_of_lt (everywhereCtx_cons.1 hctx).1.extends.1) hlocal.width
        obtain ⟨m, rfl⟩ : ∃ m, n = m + 1 := ⟨n - 1, by omega⟩
        obtain ⟨t', T', hrun, hrep, hperm⟩ := remove_leaf m h
        exact ⟨t', T', hrun, hrep, (hgone .nil (by simp)).trans (hperm.symm.cons e)⟩

end Gem5Cxl.L3.TrieRemoval
