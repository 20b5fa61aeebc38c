import Gem5Cxl.L3Protocol.TrieShape

/-!
# What insertion does to a trie

Insertion and removal change a few cells around one node. The tree is cut open
there, a subtree is replaced, and the cells of the context stay as they are.

* `Rep`: the trie is a tree in shape.
* `Laid.relink`, `Rep.relink`: a subtree is replaced by another one.
* `insertLeg_spec`: one round of the loop over the two kids.
* `insert_spec`: the new tree has one more entry, and no other entry has moved.
-/
namespace Gem5Cxl.L3.TrieChanges

open Core Core.Tree L1 L2.Tries L3.TrieShape Trie List

variable {n : Nat} {V : Type} {k' : BitVec n × Nat} {T : Core.Tree (Cell n V)} {cp i id : Nat}
  {e : Nat × Cell n V}
  {hole parent : Option Nat} {t' : Trie n V} (g : Frame (Cell n V))

/-! ## Entries -/

/-- An entry: the handle that `insert` returned, the prefix and the value. -/
structure Entry (n : Nat) (V : Type) where
  handle : Nat
  key : BitVec n
  width : Nat
  value : V
deriving DecidableEq

def entryOf (e : Nat × Cell n V) : Option (Entry n V) :=
  e.2.value.map fun v => { handle := e.1, key := e.2.key, width := e.2.width, value := v }

def entries (T : Core.Tree (Cell n V)) : List (Entry n V) := T.elems.filterMap entryOf

@[simp] theorem entries_nil : entries (.nil : Core.Tree (Cell n V)) = [] := rfl

theorem entries_node (id : Nat) (d : Cell n V) (l r : Core.Tree (Cell n V)) :
    entries (.node id d l r) = (entryOf (id, d)).toList ++ (entries l ++ entries r) := by
  cases h : entryOf (id, d) with
  | none | some e => simp [entries, Tree.elems, h]

/-- The cells of the trie are those of the tree `T`. -/
structure Laid (t : Trie n V) (T : Core.Tree (Cell n V)) : Prop where
  linked : Linked (Holds t.heap) none T
  nodup : T.ids.Nodup
  fresh : ∀ i ∈ T.ids, i < t.next

/-- The trie is the tree `T`, and `T` is in shape. -/
structure Rep (t : Trie n V) (T : Core.Tree (Cell n V)) : Prop extends Laid t T where
  shaped : Shaped T
  rooted : ∃ l r, T = .node 0 ⟨0#n, 0, none⟩ l r

/-! ## One frame -/

def side : Frame (Cell n V) → Bool
  | .inLeft _ _ _ => false
  | .inRight _ _ _ => true

def slotNode (g : Frame (Cell n V)) (parent hole : Option Nat) : Node n V :=
  { key := g.data.key, mask := leadMask n g.data.width, value := g.data.value, parent,
    kids0 := if side g then g.other.root else hole, kids1 := if side g then hole else g.other.root }

@[simp] theorem slotNode_kids (parent hole : Option Nat) :
    (slotNode g parent hole).kids (side g) = hole := by
  cases g <;> rfl

@[simp] theorem slotNode_setKid (parent hole hole' : Option Nat) :
    (slotNode g parent hole).setKid hole' (side g) = slotNode g parent hole' := by
  cases g <;> rfl

@[simp] theorem slotNode_mask (parent hole : Option Nat) :
    (slotNode g parent hole).mask = leadMask n g.data.width := rfl

@[simp] theorem slotNode_value (parent hole : Option Nat) :
    (slotNode g parent hole).value = g.data.value := rfl

variable {heap heap' : Nat → Option (Node n V)} {g : Frame (Cell n V)} {c : List (Frame (Cell n V))}
  {S S' : Core.Tree (Cell n V)}

theorem linkedCtx_cons :
    LinkedCtx (Holds heap) (g :: c) hole ↔ heap g.id = some (slotNode g (parentOf c) hole) ∧
      Linked (Holds heap) (some g.id) g.other ∧ LinkedCtx (Holds heap) c (some g.id) := by
  cases g with
  | inLeft id d r | inRight id d l => exact and_assoc

/-- What the frame asks of the prefix in its hole. -/
def Fits : Frame (Cell n V) → Option (BitVec n × Nat) → Prop
  | .inLeft _ d r, k => Local d k (r.label Cell.lead)
  | .inRight _ d l, k => Local d (l.label Cell.lead) k

theorem everywhereCtx_cons {k : Option (BitVec n × Nat)} :
    EverywhereCtx Cell.lead Local (g :: c) k ↔ Fits g k ∧ Shaped g.other ∧
      EverywhereCtx Cell.lead Local c (some g.data.lead) := by
  cases g with
  | inLeft id d r | inRight id d l => exact and_assoc

def around (g : Frame (Cell n V)) (c : List (Frame (Cell n V))) : List (Nat × Cell n V) :=
  g.other.elems ++ ctxElems c

theorem elems_plug_cons :
    (plug (g :: c) S).elems.Perm (S.elems ++ (g.id, g.data) :: around g c) := by
  have h := elems_plug (c := g :: c) (t := S)
  rwa [ctxElems, flatMap_cons, Frame.elems, cons_append] at h

theorem linked_frame (h : Linked (Holds heap) parent S)
    (hsame : ∀ e ∈ S.elems, heap' e.1 = heap e.1) : Linked (Holds heap') parent S := by
  refine h.congr fun e he p a b hcell => ?_
  rw [Holds, hsame e he]
  exact hcell

theorem linkedCtx_frame (h : LinkedCtx (Holds heap) c hole)
    (hsame : ∀ e ∈ ctxElems c, heap' e.1 = heap e.1) : LinkedCtx (Holds heap') c hole := by
  refine h.congr fun e he p a b hcell => ?_
  rw [Holds, hsame e he]
  exact hcell

/-- A subtree is replaced: only the frame's own pointer to it changes. -/
theorem relink (h : Linked (Holds heap) none (plug (g :: c) S))
    (hnode : heap' g.id = some (slotNode g (parentOf c) S'.root))
    (hsame : ∀ e ∈ around g c, heap' e.1 = heap e.1) (hS : Linked (Holds heap') (some g.id) S') :
    Linked (Holds heap') none (plug (g :: c) S') := by
  obtain ⟨hctx, -⟩ := linked_plug.1 h
  obtain ⟨-, hother, hc⟩ := linkedCtx_cons.1 hctx
  refine linked_plug.2 ⟨linkedCtx_cons.2 ⟨hnode, ?_, ?_⟩, hS⟩
  · exact linked_frame hother fun e he => hsame e (mem_append_left _ he)
  · exact linkedCtx_frame hc fun e he => hsame e (mem_append_right _ he)

variable {d : Cell n V} {l r : Core.Tree (Cell n V)} {t : Trie n V} {width : Nat} {key : BitVec n}
  {v : V}

variable {k : Nat} {b : Cell n V}

theorem linked_reroot {d' : Cell n V} {parent' : Option Nat}
    (h : Linked (Holds heap) parent (.node k d l r))
    (hcell : Holds heap' k d' parent' l.root r.root)
    (hsame : ∀ e ∈ l.elems ++ r.elems, heap' e.1 = heap e.1) :
    Linked (Holds heap') parent' (.node k d' l r) := by
  obtain ⟨-, hl, hr⟩ := h
  refine ⟨hcell, ?_, ?_⟩
  · exact linked_frame hl fun e he => hsame e (mem_append_left _ he)
  · exact linked_frame hr fun e he => hsame e (mem_append_right _ he)

theorem plug_root (g : Frame (Cell n V)) (c : List (Frame (Cell n V))) (S S' : Core.Tree (Cell n V))
    (h : ∃ l r, plug (g :: c) S = .node i d l r) : ∃ l r, plug (g :: c) S' = .node i d l r := by
  induction c generalizing g S S' with
  | nil =>
    obtain ⟨l, r, h⟩ := h
    cases g with
    | inLeft id e o =>
      cases h
      exact ⟨S', r, rfl⟩
    | inRight id e o =>
      cases h
      exact ⟨l, S', rfl⟩
  | cons g' c ih => exact ih g' (g.fill S) (g.fill S') h

theorem plug_node_root {j : Nat} {e : Cell n V} {a b a' b' : Core.Tree (Cell n V)}
    (h : ∃ l r, plug c (.node i d a b) = .node j e l r) :
    ∃ l r, plug c (.node i d a' b') = .node j e l r := by
  cases c with
  | nil =>
    obtain ⟨l, r, h⟩ := h
    cases h
    exact ⟨a', b', rfl⟩
  | cons g c => exact plug_root g c _ _ h

/-! ## Addresses -/

theorem ids_plug_cons :
    (plug (g :: c) S).ids.Perm (S.ids ++ g.id :: (around g c).map Prod.fst) := by
  have h := (elems_plug_cons (g := g) (c := c) (S := S)).map Prod.fst
  rwa [map_append, map_cons] at h

theorem nodup_parts (h : (plug (g :: c) S).ids.Nodup) :
    S.ids.Nodup ∧ g.id ∉ S.ids ∧ ∀ e ∈ around g c, e.1 ≠ g.id ∧ e.1 ∉ S.ids := by
  obtain ⟨hS, hrest, hdisj⟩ := nodup_append.1 (ids_plug_cons.nodup_iff.1 h)
  obtain ⟨hid, -⟩ := nodup_cons.1 hrest
  refine ⟨hS, fun hin => hdisj _ hin _ mem_cons_self rfl, fun e he => ?_⟩
  have hmem : e.1 ∈ (around g c).map Prod.fst := mem_map_of_mem he
  exact ⟨fun heq => hid (heq ▸ hmem), fun hin => hdisj _ hin _ (mem_cons_of_mem _ hmem) rfl⟩

theorem below_root (h : (node k d l r).ids.Nodup) (he : e ∈ l.elems ++ r.elems) :
    e.1 ∈ (node k d l r).ids ∧ e.1 ≠ k := by
  have hin : e.1 ∈ (l.elems ++ r.elems).map Prod.fst := mem_map_of_mem he
  refine ⟨mem_cons_of_mem _ hin, ?_⟩
  rintro rfl
  exact (nodup_cons.1 h).1 hin

theorem fresh_parts {m : Nat} (h : ∀ i ∈ (plug (g :: c) S).ids, i < m) :
    (∀ i ∈ S.ids, i < m) ∧ g.id < m ∧ ∀ e ∈ around g c, e.1 < m := by
  have hmem : ∀ i, i ∈ S.ids ++ g.id :: (around g c).map Prod.fst → i < m :=
    fun i hi => h i (ids_plug_cons.mem_iff.2 hi)
  refine ⟨fun i hi => hmem i (mem_append_left _ hi),
    hmem _ (mem_append_right _ mem_cons_self), fun e he => ?_⟩
  exact hmem _ (mem_append_right _ (mem_cons_of_mem _ (mem_map_of_mem he)))

/-! ## Prefixes in a frame -/

theorem Fits.local {k : Option (BitVec n × Nat)} (h : Fits g k) :
    g.data.width ≤ n ∧ g.data.key &&& leadMask n g.data.width = g.data.key := by
  cases g with
  | inLeft id d r | inRight id d l => exact ⟨h.width, h.tidy⟩

theorem Fits.extends {k : BitVec n × Nat} (h : Fits g (some k)) : Extends g.data k := by
  cases g with
  | inLeft id d r => exact h.left k rfl
  | inRight id d l => exact h.right k rfl

theorem Fits.replace {k : BitVec n × Nat} (h : Fits g (some k)) (hext : Extends g.data k')
    (hbit : k'.1.getMsbD g.data.width = k.1.getMsbD g.data.width) : Fits g (some k') := by
  cases g with
  | inLeft id d r =>
    refine { h with left := ?_, apart := ?_, order := fun _ => rfl }
    · rintro _ ⟨⟩
      exact hext
    · rintro _ ⟨⟩ b hb heq
      exact h.apart k rfl b hb (hbit.symm.trans heq)
  | inRight id d l =>
    refine { h with right := ?_, apart := ?_, order := fun _ => h.order rfl, full := fun _ _ => rfl }
    · rintro _ ⟨⟩
      exact hext
    · rintro a ha _ ⟨⟩ heq
      exact h.apart a ha k rfl (heq.trans hbit)

theorem Fits.fill (h : Fits g none) (hext : Extends g.data k')
    (hside : side g = true → ∃ a ∈ g.other.label Cell.lead,
      a.1.getMsbD g.data.width ≠ k'.1.getMsbD g.data.width) :
    Fits g (some k') := by
  cases g with
  | inLeft id d r =>
    have hr : r.label Cell.lead = none := Option.not_isSome_iff_eq_none.1 fun hsome => nomatch h.order hsome
    refine { h with left := ?_, apart := ?_, order := fun _ => rfl }
    · rintro _ ⟨⟩
      exact hext
    · intro a _ b hb
      rw [hr] at hb
      cases hb
  | inRight id d l =>
    obtain ⟨a, ha, hne⟩ := hside rfl
    refine { h with right := ?_, apart := ?_, order := fun _ => ?_, full := fun _ _ => rfl }
    · rintro _ ⟨⟩
      exact hext
    · rintro a' ha' _ ⟨⟩
      cases Option.mem_unique ha ha'
      exact hne
    · exact Option.isSome_iff_exists.2 ⟨a, ha⟩

/-! ## A subtree is replaced -/

theorem Laid.relink (h : Laid t (plug (g :: c) S))
    (hnode : t'.heap g.id = some (slotNode g (parentOf c) S'.root))
    (hsame : ∀ e ∈ around g c, t'.heap e.1 = t.heap e.1)
    (hS : Linked (Holds t'.heap) (some g.id) S')
    (hnodup : S'.ids.Nodup) (hids : ∀ i ∈ S'.ids, i ∈ S.ids ∨ t.next ≤ i ∧ i < t'.next)
    (hnext : t.next ≤ t'.next) : Laid t' (plug (g :: c) S') := by
  obtain ⟨-, hrest, hdisj⟩ := nodup_append.1 (ids_plug_cons.nodup_iff.1 h.nodup)
  have hold : ∀ i ∈ S.ids ++ g.id :: (around g c).map Prod.fst, i < t.next :=
    fun i hi => h.fresh i (ids_plug_cons.mem_iff.2 hi)
  refine ⟨TrieChanges.relink h.linked hnode hsame hS, ids_plug_cons.nodup_iff.2 ?_, fun i hi => ?_⟩
  · refine nodup_append.2 ⟨hnodup, hrest, ?_⟩
    rintro i hi j hj rfl
    -- an address outside was in use before and is not one of the old subtree
    rcases hids i hi with hin | ⟨hnew, -⟩
    · exact hdisj i hin i hj rfl
    · have hlt := hold i (mem_append_right _ hj)
      omega
  · rcases mem_append.1 (ids_plug_cons.mem_iff.1 hi) with hin | hin
    · rcases hids i hin with hin | ⟨-, hlt⟩
      · exact Nat.lt_of_lt_of_le (hold i (mem_append_left _ hin)) hnext
      · exact hlt
    · exact Nat.lt_of_lt_of_le (hold i (mem_append_right _ hin)) hnext

theorem Rep.relink (h : Rep t (plug (g :: c) S)) (hlaid : Laid t' (plug (g :: c) S'))
    (hshaped : Shaped S') (hfits : Fits g (S'.label Cell.lead)) : Rep t' (plug (g :: c) S') := by
  obtain ⟨-, hother, hctx⟩ := everywhereCtx_cons.1 (everywhere_plug.1 h.shaped).1
  exact ⟨hlaid, everywhere_plug.2 ⟨everywhereCtx_cons.2 ⟨hfits, hother, hctx⟩, hshaped⟩,
    plug_root g c S S' h.rooted⟩

theorem entries_plug : (entries (plug (g :: c) S)).Perm
    (entries S ++ ((g.id, g.data) :: around g c).filterMap entryOf) := by
  have h := (elems_plug_cons (g := g) (c := c) (S := S)).filterMap entryOf
  rwa [filterMap_append] at h

theorem entries_relink {e : Entry n V} (h : (entries S').Perm (e :: entries S)) :
    (entries (plug (g :: c) S')).Perm (e :: entries (plug (g :: c) S)) :=
  entries_plug.trans ((h.append_right _).trans (entries_plug.symm.cons e))

/-! ## Insertion -/

theorem newMask_eq (hpos : 0 < width) (hw : width ≤ n) :
    newMask n width = .ok (leadMask n width) := by
  rw [newMask, leadMask]
  split
  · rw [if_pos (by omega)]
  · rw [show n - width = 0 by omega, BitVec.shiftLeft_zero]

def leafCell (key : BitVec n) (width : Nat) (v : V) : Cell n V := ⟨key, width, some v⟩

theorem shaped_leaf (hw : width ≤ n)
    (htidy : key &&& leadMask n width = key) :
    Shaped (.node id (leafCell key width v) .nil .nil) := by
  refine ⟨⟨hw, htidy, ?_, ?_, ?_, ?_, ?_⟩, trivial, trivial⟩
  · exact nofun
  · exact nofun
  · exact nofun
  · exact nofun
  · exact nofun

theorem insertLeg_leaf (h : Rep t (plug (g :: c) .nil)) (hw : width ≤ n)
    (htidy : key &&& leadMask n width = key) (hext : Extends g.data (key, width))
    (hside : side g = true → ∃ a ∈ g.other.label Cell.lead,
      a.1.getMsbD g.data.width ≠ key.getMsbD g.data.width) :
    ∃ t', t.insertLeg g.id (side g) key (leadMask n width) (some v) = .ok (some (t.next, t')) ∧
      Rep t' (plug (g :: c) (.node t.next (leafCell key width v) .nil .nil)) := by
  obtain ⟨hctx, -⟩ := linked_plug.1 h.linked
  obtain ⟨hnode, -⟩ := linkedCtx_cons.1 hctx
  obtain ⟨hfits, -⟩ := everywhereCtx_cons.1 (everywhere_plug.1 h.shaped).1
  obtain ⟨-, hid, haround⟩ := fresh_parts h.fresh
  obtain ⟨-, -, hne⟩ := nodup_parts h.nodup
  refine ⟨_, by
    rw [insertLeg, Trie.deref, hnode]
    simp only [ok_bind, slotNode_kids]
    rfl, ?_⟩
  refine h.relink (h.toLaid.relink ?_ ?_ ?_ ?_ ?_ ?_) (shaped_leaf hw htidy) (hfits.fill hext hside)
  · simp [store, alloc, Tree.root]
  · intro e he
    have hlt := haround e he
    simp [store, alloc, (hne e he).1, Nat.ne_of_lt hlt]
  · refine ⟨?_, trivial, trivial⟩
    have hneq : t.next ≠ g.id := by omega
    simp [Holds, store, alloc, hneq, Node.make, htidy, leafCell, Tree.root]
  · simp [Tree.ids, Tree.elems]
  · intro i hi
    simp only [Tree.ids, Tree.elems, append_nil, map_cons, map_nil,
      mem_singleton] at hi
    subst hi
    exact .inr ⟨Nat.le_refl _, Nat.lt_succ_self _⟩
  · exact Nat.le_succ _

/-- The node that takes over an edge: the old subtree is its first kid. -/
structure Parts (d : Cell n V) (b : BitVec n × Nat) (key : BitVec n) (width cp : Nat) : Prop where
  above : d.width < cp
  notLonger : cp ≤ width
  below : cp < b.2
  agree : Agree cp key b.1
  differ : cp < width → key.getMsbD cp ≠ b.1.getMsbD cp

theorem Parts.fits {b : BitVec n × Nat} {key' : BitVec n}
    (h : Parts g.data b key width cp) (hfits : Fits g (some b)) (hkey : Agree cp key' key)
    (hlead : g.data.Leads key) : Fits g (some (key', cp)) := by
  refine hfits.replace ⟨h.above, hlead.trans (hkey.symm.mono (Nat.le_of_lt h.above))⟩ ?_
  exact (hkey.trans h.agree) g.data.width h.above

theorem laid_between {m : Cell n V} {R : Core.Tree (Cell n V)}
    (h : Laid t (plug (g :: c) (.node k b l r)))
    (hnode : t'.heap g.id = some (slotNode g (parentOf c) (some t.next)))
    (hmid : Holds t'.heap t.next m (some g.id) (some k) R.root)
    (hkid : Holds t'.heap k b (some t.next) l.root r.root)
    (hR : Linked (Holds t'.heap) (some t.next) R)
    (hsame : ∀ i, i < t.next → i ≠ g.id → i ≠ k → t'.heap i = t.heap i)
    (hnodup : R.ids.Nodup) (hids : ∀ i ∈ R.ids, t.next < i ∧ i < t'.next)
    (hnext : t.next < t'.next) :
    Laid t' (plug (g :: c) (.node t.next m (.node k b l r) R)) := by
  obtain ⟨hS, hgS, haround⟩ := nodup_parts h.nodup
  obtain ⟨hfreshS, -, hfreshAround⟩ := fresh_parts h.fresh
  have hlinked := (linked_plug.1 h.linked).2
  have hk : k ∈ (node k b l r).ids := mem_cons_self
  refine h.relink hnode (fun e he => ?_) ⟨hmid, ?_, hR⟩ ?_ ?_ (Nat.le_of_lt hnext)
  · have hek : e.1 ≠ k := fun heq => (haround e he).2 (heq ▸ hk)
    exact hsame e.1 (hfreshAround e he) (haround e he).1 hek
  · refine linked_reroot hlinked hkid fun e he => ?_
    obtain ⟨hmem, hne⟩ := below_root hS he
    exact hsame e.1 (hfreshS _ hmem) (fun heq => hgS (heq ▸ hmem)) hne
  · have hsplit : (node t.next m (.node k b l r) R).ids = t.next :: ((node k b l r).ids ++ R.ids) := by
      simp [Tree.ids, Tree.elems]
    rw [hsplit]
    refine nodup_cons.2 ⟨fun hin => ?_, nodup_append.2 ⟨hS, hnodup, ?_⟩⟩
    · rcases mem_append.1 hin with hin | hin
      · exact Nat.lt_irrefl _ (hfreshS _ hin)
      · exact Nat.lt_irrefl _ (hids _ hin).1
    · rintro i hi j hj rfl
      have hold := hfreshS i hi
      have hnew := (hids i hj).1
      omega
  · intro i hi
    have hi' : i = t.next ∨ i ∈ (node k b l r).ids ∨ i ∈ R.ids := by
      simpa [Tree.ids, Tree.elems, or_assoc] using hi
    rcases hi' with rfl | hin | hin
    · exact .inr ⟨Nat.le_refl _, hnext⟩
    · exact .inl hin
    · exact .inr ⟨Nat.le_of_lt (hids i hin).1, (hids i hin).2⟩

section

variable (hs : Shaped (.node k b l r)) (hw : width ≤ n) (htidy : key &&& leadMask n width = key)
include hs hw htidy

/-- The new node takes the value: its prefix is that of the new entry. -/
theorem shaped_above (hlt : width < b.width) (hagree : Agree width key b.key) :
    Shaped (.node id (leafCell key width v) (.node k b l r) .nil) := by
  refine ⟨⟨hw, htidy, ?_, ?_, ?_, ?_, ?_⟩, hs, trivial⟩
  · rintro _ ⟨⟩
    exact ⟨hlt, hagree⟩
  · exact nofun
  · exact nofun
  · exact nofun
  · exact nofun

/-- The new node has no value and two kids, that part at its prefix. -/
theorem shaped_fork {id' : Nat} (hlt : cp < width) (hb : cp < b.width)
    (hagree : Agree cp key b.key) (hdiffer : key.getMsbD cp ≠ b.key.getMsbD cp) :
    Shaped (.node id ⟨key &&& leadMask n cp, cp, none⟩ (.node k b l r)
      (.node id' (leafCell key width v) .nil .nil)) := by
  have hcp : cp ≤ n := by omega
  have hkey : Agree cp (key &&& leadMask n cp) key := agree_and_leadMask hcp key
  refine ⟨⟨hcp, ?_, ?_, ?_, ?_, fun _ => rfl, fun _ _ => rfl⟩, hs, shaped_leaf hw htidy⟩
  · rw [BitVec.and_assoc, BitVec.and_self]
  · rintro _ ⟨⟩
    exact ⟨hb, hkey.trans hagree⟩
  · rintro _ ⟨⟩
    exact ⟨hlt, hkey⟩
  · rintro _ ⟨⟩ _ ⟨⟩ heq
    exact hdiffer heq.symm

end

theorem insertLeg_kid (h : Rep t (plug (g :: c) (.node k b l r))) (hw : width ≤ n)
    (htidy : key &&& leadMask n width = key) (hlt : g.data.width < width) (hlead : g.data.Leads key)
    (hkid : b.Leads key → width < b.width) :
    (t.insertLeg g.id (side g) key (leadMask n width) (some v) = .ok none ∧
        key.getMsbD g.data.width ≠ b.key.getMsbD g.data.width) ∨
      ∃ handle t' S', t.insertLeg g.id (side g) key (leadMask n width) (some v) = .ok
        (some (handle, t')) ∧ Rep t' (plug (g :: c) S') ∧
        (entries S').Perm (⟨handle, key, width, v⟩ :: entries (.node k b l r)) := by
  obtain ⟨hctx, hcell, -⟩ := linked_plug.1 h.linked
  obtain ⟨hnode, -⟩ := linkedCtx_cons.1 hctx
  obtain ⟨hctxShaped, hshaped⟩ := everywhere_plug.1 h.shaped
  obtain ⟨hfits, -⟩ := everywhereCtx_cons.1 hctxShaped
  obtain ⟨hfreshS, hid, -⟩ := fresh_parts h.fresh
  have hgk : g.id ≠ k := fun heq => (nodup_parts h.nodup).2.1 (heq ▸ mem_cons_self)
  have hk : k < t.next := hfreshS k mem_cons_self
  have hext := hfits.extends
  have hshare : Agree g.data.width key b.key := hlead.symm.trans hext.2
  have hfuel : width < n + 1 + g.data.width := by omega
  obtain ⟨cp, hwalk, hcp, hcpw, hagree, hdiffer⟩ := walkDown_spec hw hshare (Nat.le_of_lt hlt) hfuel
  have hcpn : cp ≤ n := by omega
  -- the edge is left before the kid's prefix ends: otherwise the walk had gone on past the kid
  have hbelow : cp < b.width := by
    refine Nat.lt_of_not_le fun hle => ?_
    have hlonger := hkid (hagree.symm.mono hle)
    omega
  rw [insertLeg, Trie.deref, hnode, Tree.root]
  simp only [slotNode_kids, deref_eq hcell, ok_bind, slotNode_mask, hwalk]
  by_cases hstay : cp = g.data.width
  · subst hstay
    exact .inl ⟨if_pos rfl, hdiffer hlt⟩
  have hmaskne : leadMask n cp ≠ leadMask n g.data.width := fun heq =>
    hstay ((leadMask_inj hcpn hfits.local.1).1 heq)
  have hparts : Parts g.data b.lead key width cp := ⟨by omega, hcpw, hbelow, hagree, hdiffer⟩
  have hgn : g.id ≠ t.next := Nat.ne_of_lt hid
  have hkn : k ≠ t.next := Nat.ne_of_lt hk
  right
  rw [if_neg hmaskne]
  by_cases hend : cp = width
  · subst hend
    refine ⟨t.next, _, .node t.next (leafCell key cp v) (.node k b l r) .nil, if_pos rfl, ?_, .of_eq ?_⟩
    · refine h.relink (laid_between h.toLaid ?_ ?_ ?_ trivial ?_ ?_ ?_ ?_)
        (shaped_above hshaped hw htidy hbelow hagree) (hparts.fits hfits (.refl _ _) hlead)
      · simp [store, alloc, hgn]
      · simp [Holds, store, alloc, leafCell, Node.make, htidy, Tree.root]
      · simp [Holds, store, alloc, hkn, hgk.symm]
      · intro i hi hig hik
        simp [store, alloc, hig, hik, Nat.ne_of_lt hi]
      · exact nodup_nil
      · rintro i ⟨⟩
      · exact Nat.lt_succ_self _
    · simp [entries_node, entryOf, leafCell]
  · have hendmask : leadMask n cp ≠ leadMask n width := fun heq => hend ((leadMask_inj hcpn hw).1 heq)
    refine ⟨t.next + 1, _, .node t.next ⟨key &&& leadMask n cp, cp, none⟩ (.node k b l r)
      (.node (t.next + 1) (leafCell key width v) .nil .nil), if_neg hendmask, ?_, ?_⟩
    · refine h.relink (laid_between h.toLaid ?_ ?_ ?_ ⟨?_, trivial, trivial⟩ ?_ ?_ ?_ ?_)
        (shaped_fork hshaped hw htidy (by omega) hbelow hagree (hdiffer (by omega)))
        (hparts.fits hfits (agree_and_leadMask hcpn key) hlead)
      · have hgn' : g.id ≠ t.next + 1 := by omega
        simp [store, alloc, hgn, hgn']
      · simp [Holds, store, alloc, Node.make, Tree.root]
      · have hkn' : k ≠ t.next + 1 := by omega
        simp [Holds, store, alloc, hkn, hkn', hgk.symm]
      · simp [Holds, store, alloc, leafCell, Node.make, htidy, Tree.root]
      · intro i hi hig hik
        have hin : i ≠ t.next + 1 := by omega
        simp [store, alloc, hig, hik, hin, Nat.ne_of_lt hi]
      · simp [Tree.ids, Tree.elems]
      · intro i hi
        simp only [Tree.ids, Tree.elems, append_nil, map_cons, map_nil,
          mem_singleton] at hi
        subst hi
        exact ⟨Nat.lt_succ_self _, Nat.lt_succ_self _⟩
      · exact Nat.lt_succ_of_lt (Nat.lt_succ_self _)
    · refine .trans (.of_eq ?_) (perm_append_singleton _ _)
      simp [entries_node, entryOf, leafCell]

/-- One round of the loop over the kids: the new node goes here, or the kid parts from the new
prefix right away. -/
theorem insertLeg_spec (h : Rep t (plug (g :: c) S)) (hw : width ≤ n)
    (htidy : key &&& leadMask n width = key) (hlt : g.data.width < width) (hlead : g.data.Leads key)
    (hkid : ∀ k ∈ S.label Cell.lead, Agree k.2 k.1 key → width < k.2)
    (hside : side g = true → ∃ a ∈ g.other.label Cell.lead,
      a.1.getMsbD g.data.width ≠ key.getMsbD g.data.width) :
    (t.insertLeg g.id (side g) key (leadMask n width) (some v) = .ok none ∧
        ∃ b ∈ S.label Cell.lead, b.1.getMsbD g.data.width ≠ key.getMsbD g.data.width) ∨
      ∃ handle t' T', t.insertLeg g.id (side g) key (leadMask n width) (some v) = .ok
        (some (handle, t')) ∧
        Rep t' T' ∧ (entries T').Perm (⟨handle, key, width, v⟩ :: entries (plug (g :: c) S)) := by
  cases S with
  | nil =>
    obtain ⟨t', hrun, hrep⟩ := insertLeg_leaf h hw htidy ⟨hlt, hlead⟩ hside
    refine .inr ⟨t.next, t', _, hrun, hrep, entries_relink (.of_eq ?_)⟩
    simp [entries_node, entryOf, leafCell]
  | node k b l r =>
    rcases insertLeg_kid h hw htidy hlt hlead (hkid b.lead rfl) with
      ⟨hrun, hbit⟩ | ⟨handle, t', S', hrun, hrep, hperm⟩
    · exact .inl ⟨hrun, b.lead, rfl, .symm hbit⟩
    · exact .inr ⟨handle, t', _, hrun, hrep, entries_relink hperm⟩

def NotStored (stored : List (Entry n V)) (key : BitVec n) (width : Nat) : Prop :=
  ∀ e ∈ stored, e.width = width → ¬ Agree width e.key key

theorem mem_entries {e : Entry n V} :
    e ∈ entries T ↔ (e.handle, (⟨e.key, e.width, some e.value⟩ : Cell n V)) ∈ T.elems := by
  rw [entries, mem_filterMap]
  constructor
  · rintro ⟨⟨id, key, width, value⟩, hmem, hentry⟩
    cases value with
    | none => cases hentry
    | some v =>
      cases hentry
      exact hmem
  · intro hmem
    exact ⟨_, hmem, rfl⟩

theorem rep_store (value : Option V) (h : Rep t (plug (g :: c) (.node id d l r)))
    (hfull : value = none → 0 < d.width → (r.label Cell.lead).isSome) :
    Rep (t.store id { key := d.key, mask := leadMask n d.width, value, parent := some g.id,
                      kids0 := l.root, kids1 := r.root })
      (plug (g :: c) (.node id { d with value } l r)) := by
  obtain ⟨hctx, hlinked⟩ := linked_plug.1 h.linked
  obtain ⟨hnode, -⟩ := linkedCtx_cons.1 hctx
  obtain ⟨hctxShaped, hlocal, hsl, hsr⟩ := everywhere_plug.1 h.shaped
  obtain ⟨hfits, -⟩ := everywhereCtx_cons.1 hctxShaped
  obtain ⟨hS, hgS, haround⟩ := nodup_parts h.nodup
  have hidS : id ∈ (node id d l r).ids := mem_cons_self
  have hgid : g.id ≠ id := fun heq => hgS (heq ▸ hidS)
  refine h.relink (h.toLaid.relink ?_ ?_ ?_ hS (fun i hi => .inl hi) (Nat.le_refl _))
    ⟨{ hlocal with full := hfull }, hsl, hsr⟩ hfits
  · exact (Function.update_of_ne hgid _ _).trans hnode
  · intro e he
    have hne : e.1 ≠ id := fun heq => (haround e he).2 (heq ▸ hidS)
    simp [store, hne]
  · refine linked_reroot hlinked (by simp [Holds, store]) fun e he => ?_
    simp [store, (below_root hS he).2]

/-- **Insertion.** A prefix that is not stored gets a node, and nothing else changes. -/
theorem insert_spec (h : Rep t T)
    (v : V) (hpos : 0 < width) (hw : width ≤ n) (hnew : NotStored (entries T) key width) :
    ∃ handle t' T', t.insert key width (some v) = .ok (handle, t') ∧ Rep t' T' ∧
      (entries T').Perm (⟨handle, key &&& leadMask n width, width, v⟩ :: entries T) := by
  obtain ⟨key', hkey'⟩ : ∃ k, k = key &&& leadMask n width := ⟨_, rfl⟩
  have htidy : key' &&& leadMask n width = key' := by rw [hkey', BitVec.and_assoc, BitVec.and_self]
  have hagree : Agree width key' key := hkey' ▸ agree_and_leadMask hw key
  obtain ⟨l₀, r₀, hroot⟩ := h.rooted
  have hfuel : n < n + 1 + 0 := by omega
  obtain ⟨c, id, d, l, r, hwalk, hplace⟩ := walkPast_spec (c := []) h.linked h.shaped hw hroot
    (.zero _ key') (Nat.zero_le width) hfuel
  have hT := hplace.tree
  subst hT
  obtain ⟨-, hcell, -⟩ := linked_plug.1 h.linked
  obtain ⟨-, hlocal, -⟩ := everywhere_plug.1 h.shaped
  rw [Trie.insert, newMask_eq hpos hw]
  simp only [Option.isNone_some, Bool.false_eq_true, if_false, ok_bind, ← hkey', hwalk, deref_eq hcell]
  by_cases hend : d.width = width
  · have hkey : d.key = key' := by
      rw [← hlocal.tidy, hend, ← htidy, and_leadMask_eq hw, ← hend]
      exact hplace.leads
    have hvalue : d.value = none := by
      cases hv : d.value with
      | none => rfl
      | some w =>
        have hmem : (⟨id, d.key, d.width, w⟩ : Entry n V) ∈ entries (plug c (.node id d l r)) := by
          rw [mem_entries, ← hv]
          exact elems_plug.mem_iff.2 (mem_append_left _ mem_cons_self)
        exact absurd (hkey ▸ hagree) (hnew _ hmem hend)
    rw [if_pos (by rw [hend]), hvalue]
    cases c with
    | nil =>
      -- the root's prefix is empty
      cases hroot
      exact absurd hend (Nat.ne_of_lt hpos)
    | cons g c =>
      refine ⟨id, _, _, rfl, rep_store (some v) h (by rintro ⟨⟩), ?_⟩
      refine entries_relink (.of_eq ?_)
      simp [entries_node, entryOf, hvalue, hkey, hend]
  · have hlt : d.width < width := Nat.lt_of_le_of_ne hplace.notLonger hend
    have hmask : leadMask n d.width ≠ leadMask n width := fun heq =>
      hend ((leadMask_inj hlocal.width hw).1 heq)
    rw [if_neg hmask]
    rcases insertLeg_spec (g := .inLeft id d r) h hw htidy hlt hplace.leads hplace.left
      (by rintro ⟨⟩) with ⟨hrun, a, ha, hbit⟩ | ⟨handle, t', T', hrun, hrep, hperm⟩
    · rcases insertLeg_spec (g := .inRight id d l) h hw htidy hlt hplace.leads hplace.right
        (fun _ => ⟨a, ha, hbit⟩) with ⟨-, b, hb, hbit'⟩ | ⟨handle, t', T', hrun', hrep, hperm⟩
      · -- of two kids, one goes the way of the new prefix
        refine absurd (?_ : a.1.getMsbD d.width = b.1.getMsbD d.width) (hlocal.apart a ha b hb)
        exact (Bool.eq_not.2 hbit).trans (Bool.eq_not.2 hbit').symm
      · exact ⟨handle, t', T', bind_eq_ok.2 ⟨_, hrun, bind_eq_ok.2 ⟨_, hrun', rfl⟩⟩, hrep, hperm⟩
    · exact ⟨handle, t', T', bind_eq_ok.2 ⟨_, hrun, rfl⟩, hrep, hperm⟩

end Gem5Cxl.L3.TrieChanges
