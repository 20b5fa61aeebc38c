import Mathlib.Data.List.Perm.Basic

/-!
# Binary trees laid out in a heap

A tree whose nodes have addresses, and the heap cells that such a tree stands
for: each cell holds the node's data, a pointer to its parent and pointers to its
two kids. Programs change a few cells; what that means for the whole tree is
stated with contexts.

* `Linked`: the cells of a tree. What a cell says is a parameter.
* `plug`: a tree with a subtree put into a context, the innermost frame first.
* `linked_plug`, `everywhere_plug`, `elems_plug`: a property of the whole tree is
  one of the subtree and one of the context. A change of the subtree that keeps
  its root's address leaves the context's cells as they are.
* `exists_focus`: every node is the root of a subtree in a context.
-/
namespace Gem5Cxl.Core

inductive Tree (α : Type)
  | nil
  | node (id : Nat) (data : α) (l r : Tree α)

variable {α β : Type}

namespace Tree

/-- The address of the root, null for the empty tree. -/
def root : Tree α → Option Nat
  | nil => none
  | node id _ _ _ => some id

def elems : Tree α → List (Nat × α)
  | nil => []
  | node id d l r => (id, d) :: (elems l ++ elems r)

def ids (t : Tree α) : List Nat := t.elems.map Prod.fst

/-- What a node shows of its data to its parent. -/
def label (f : α → β) : Tree α → Option β
  | nil => none
  | node _ d _ _ => some (f d)

/-- The cell of every node has its data and links. -/
def Linked (P : Nat → α → Option Nat → Option Nat → Option Nat → Prop) : Option Nat → Tree α → Prop
  | _, nil => True
  | parent, node id d l r => P id d parent l.root r.root ∧ Linked P (some id) l ∧ Linked P (some id) r

/-- A property of every node and the labels of its kids. -/
def Everywhere (f : α → β) (Q : α → Option β → Option β → Prop) : Tree α → Prop
  | nil => True
  | node _ d l r => Q d (l.label f) (r.label f) ∧ Everywhere f Q l ∧ Everywhere f Q r

end Tree

/-- One step from a subtree to its parent: the parent, and its other kid. -/
inductive Frame (α : Type)
  | inLeft (id : Nat) (data : α) (r : Tree α)
  | inRight (id : Nat) (data : α) (l : Tree α)

namespace Frame

def id : Frame α → Nat
  | inLeft id _ _ => id
  | inRight id _ _ => id

def data : Frame α → α
  | inLeft _ d _ => d
  | inRight _ d _ => d

def other : Frame α → Tree α
  | inLeft _ _ r => r
  | inRight _ _ l => l

def fill : Frame α → Tree α → Tree α
  | inLeft id d r, t => .node id d t r
  | inRight id d l, t => .node id d l t

def elems (g : Frame α) : List (Nat × α) := (g.id, g.data) :: g.other.elems

end Frame

open Tree List

def plug : List (Frame α) → Tree α → Tree α
  | [], t => t
  | g :: c, t => plug c (g.fill t)

/-- The parent of what is put into the context. -/
def parentOf (c : List (Frame α)) : Option Nat := c.head?.map Frame.id

def ctxElems (c : List (Frame α)) : List (Nat × α) := c.flatMap Frame.elems

/-- The cells of a context around a subtree at address `hole`. -/
def LinkedCtx (P : Nat → α → Option Nat → Option Nat → Option Nat → Prop) :
    List (Frame α) → Option Nat → Prop
  | [], _ => True
  | .inLeft id d r :: c, hole =>
    (P id d (parentOf c) hole r.root ∧ Linked P (some id) r) ∧ LinkedCtx P c (some id)
  | .inRight id d l :: c, hole =>
    (P id d (parentOf c) l.root hole ∧ Linked P (some id) l) ∧ LinkedCtx P c (some id)

def EverywhereCtx (f : α → β) (Q : α → Option β → Option β → Prop) :
    List (Frame α) → Option β → Prop
  | [], _ => True
  | .inLeft _ d r :: c, hole =>
    (Q d hole (r.label f) ∧ Everywhere f Q r) ∧ EverywhereCtx f Q c (some (f d))
  | .inRight _ d l :: c, hole =>
    (Q d (l.label f) hole ∧ Everywhere f Q l) ∧ EverywhereCtx f Q c (some (f d))

variable {P P' : Nat → α → Option Nat → Option Nat → Option Nat → Prop} {c : List (Frame α)}
  {t : Tree α}

theorem and_left_hole {p q l r : Prop} : p ∧ q ∧ l ∧ r ↔ ((q ∧ r) ∧ p) ∧ l := by tauto

theorem and_right_hole {p q l r : Prop} : p ∧ q ∧ l ∧ r ↔ ((q ∧ l) ∧ p) ∧ r := by tauto

theorem linked_plug :
    Linked P none (plug c t) ↔ LinkedCtx P c t.root ∧ Linked P (parentOf c) t := by
  induction c generalizing t with
  | nil => exact ⟨fun h => ⟨trivial, h⟩, fun h => h.2⟩
  | cons g c ih =>
    rw [plug, ih]
    cases g with
    | inLeft id d r => exact and_left_hole
    | inRight id d l => exact and_right_hole

theorem everywhere_plug {f : α → β} {Q : α → Option β → Option β → Prop} :
    Everywhere f Q (plug c t) ↔ EverywhereCtx f Q c (t.label f) ∧ Everywhere f Q t := by
  induction c generalizing t with
  | nil => exact ⟨fun h => ⟨trivial, h⟩, fun h => h.2⟩
  | cons g c ih =>
    rw [plug, ih]
    cases g with
    | inLeft id d r => exact and_left_hole
    | inRight id d l => exact and_right_hole

theorem elems_plug : (plug c t).elems.Perm (t.elems ++ ctxElems c) := by
  induction c generalizing t with
  | nil => simp [plug, ctxElems]
  | cons g c ih =>
    have hfill : (g.fill t).elems.Perm (t.elems ++ g.elems) := by
      cases g with
      | inLeft id d r => exact perm_middle.symm
      | inRight id d l => exact ((perm_append_comm).cons _).trans perm_middle.symm
    rw [ctxElems, flatMap_cons, ← append_assoc]
    exact ih.trans (hfill.append_right _)

theorem plug_append (c c' : List (Frame α)) (t : Tree α) :
    plug (c ++ c') t = plug c' (plug c t) := by
  induction c generalizing t with
  | nil => rfl
  | cons g c ih => exact ih _

theorem exists_focus {id : Nat} {d : α} (h : (id, d) ∈ t.elems) :
    ∃ c l r, t = plug c (.node id d l r) := by
  induction t with
  | nil => cases h
  | node i e l r ihl ihr =>
    rcases mem_cons.1 h with heq | hmem
    · cases heq
      exact ⟨[], l, r, rfl⟩
    · rcases mem_append.1 hmem with hl | hr
      · obtain ⟨c, l', r', hfocus⟩ := ihl hl
        refine ⟨c ++ [.inLeft i e r], l', r', ?_⟩
        rw [plug_append, ← hfocus]
        rfl
      · obtain ⟨c, l', r', hfocus⟩ := ihr hr
        refine ⟨c ++ [.inRight i e l], l', r', ?_⟩
        rw [plug_append, ← hfocus]
        rfl

/-! ## Changes elsewhere -/

theorem Tree.Linked.congr {parent : Option Nat} (h : Linked P parent t)
    (hP : ∀ e ∈ t.elems, ∀ p a b, P e.1 e.2 p a b → P' e.1 e.2 p a b) : Linked P' parent t := by
  induction t generalizing parent with
  | nil => trivial
  | node id d l r ihl ihr =>
    obtain ⟨hp, hl, hr⟩ := h
    refine ⟨hP (id, d) mem_cons_self _ _ _ hp, ihl hl fun e he => ?_, ihr hr fun e he => ?_⟩
    · exact hP e (mem_cons_of_mem _ (mem_append_left _ he))
    · exact hP e (mem_cons_of_mem _ (mem_append_right _ he))

theorem LinkedCtx.congr {hole : Option Nat} (h : LinkedCtx P c hole)
    (hP : ∀ e ∈ ctxElems c, ∀ p a b, P e.1 e.2 p a b → P' e.1 e.2 p a b) : LinkedCtx P' c hole := by
  induction c generalizing hole with
  | nil => trivial
  | cons g c ih =>
    rw [ctxElems, flatMap_cons, forall_mem_append, Frame.elems, forall_mem_cons] at hP
    obtain ⟨⟨hnode, hother⟩, hrest⟩ := hP
    cases g with
    | inLeft id d r =>
      obtain ⟨⟨hp, hr⟩, hc⟩ := h
      exact ⟨⟨hnode _ _ _ hp, hr.congr hother⟩, ih hc hrest⟩
    | inRight id d l =>
      obtain ⟨⟨hp, hl⟩, hc⟩ := h
      exact ⟨⟨hnode _ _ _ hp, hl.congr hother⟩, ih hc hrest⟩

end Gem5Cxl.Core
