import Gem5Cxl.Core.LeadingBits
import Gem5Cxl.Core.LinkedTree
import Gem5Cxl.L2Machine.Trie

/-!
# The shape of a trie

The cells of a trie are those of a tree (`Holds`), and each node of the tree
stands for a prefix that is longer than its parent's (`Local`). Walks from the
root are walks in that tree:

* `lookupFrom_spec`: a lookup ends at the shortest prefix that matches.
* `walkPast_spec`: the walk of an insertion ends at the longest prefix of the new
  one, and what hangs below it is where the new prefix has to go.
* `walkDown_spec`: the walk down an edge ends where the two prefixes part.
-/
namespace Gem5Cxl.L3.TrieShape

open Core Core.Tree L1 L2.Tries List

variable {n : Nat} {V : Type} {k : BitVec n × Nat} {fuel id w width : Nat}

/-- What a node says apart from its links; `width` bits of `key` count. -/
structure Cell (n : Nat) (V : Type) where
  key : BitVec n
  width : Nat
  value : Option V

namespace Cell

def lead (d : Cell n V) : BitVec n × Nat := (d.key, d.width)

/-- The prefix of the node is one of `key`. -/
def Leads (d : Cell n V) (key : BitVec n) : Prop := Agree d.width d.key key
  deriving Decidable

end Cell

/-- The node at `id`. -/
def Holds (heap : Nat → Option (Node n V)) (id : Nat) (d : Cell n V)
    (parent kids0 kids1 : Option Nat) : Prop :=
  heap id = some { key := d.key, mask := leadMask n d.width, value := d.value, parent, kids0, kids1 }

def Extends (d : Cell n V) (k : BitVec n × Nat) : Prop := d.width < k.2 ∧ Agree d.width d.key k.1

/-- A node and the prefixes of its kids. Two kids differ right after their parent's prefix; a lone
kid is the first; a node without a value, the root apart, has two kids. -/
structure Local (d : Cell n V) (l r : Option (BitVec n × Nat)) : Prop where
  width : d.width ≤ n
  tidy : d.key &&& leadMask n d.width = d.key
  left : ∀ k ∈ l, Extends d k
  right : ∀ k ∈ r, Extends d k
  apart : ∀ a ∈ l, ∀ b ∈ r, a.1.getMsbD d.width ≠ b.1.getMsbD d.width
  order : r.isSome → l.isSome
  full : d.value = none → 0 < d.width → r.isSome

def Shaped (t : Core.Tree (Cell n V)) : Prop := Everywhere Cell.lead Local t

/-! ## Nodes and their prefixes -/

variable {d : Cell n V} {parent : Option Nat} {s l r : Core.Tree (Cell n V)} {key : BitVec n}

variable {t : Trie n V}

theorem deref_eq {kids0 kids1 : Option Nat} (h : Holds t.heap id d parent kids0 kids1) :
    t.deref id = .ok
      { key := d.key, mask := leadMask n d.width, value := d.value, parent, kids0, kids1 } := by
  rw [Trie.deref, h]

theorem matches_iff (hw : d.width ≤ n) (htidy : d.key &&& leadMask n d.width = d.key)
    (key : BitVec n) : key &&& leadMask n d.width = d.key ↔ d.Leads key := by
  have hmask : key &&& leadMask n d.width = d.key ↔
      key &&& leadMask n d.width = d.key &&& leadMask n d.width := by rw [htidy]
  rw [hmask, and_leadMask_eq hw]
  exact ⟨.symm, .symm⟩

theorem below {t : Core.Tree (Cell n V)} (hs : Shaped t) (hk : t.label Cell.lead = some k) :
    ∀ e ∈ t.elems, k.2 ≤ e.2.width ∧ Agree k.2 k.1 e.2.key := by
  induction t generalizing k with
  | nil => cases hk
  | node id d l r ihl ihr =>
    obtain ⟨hlocal, hl, hr⟩ := hs
    cases hk
    -- an element of a kid's subtree extends the kid's prefix, which extends this one
    have hkid : ∀ (s : Core.Tree (Cell n V)) e,
        (∀ k ∈ s.label Cell.lead, Extends d k) →
        (∀ {k}, s.label Cell.lead = some k → ∀ e ∈ s.elems, k.2 ≤ e.2.width ∧ Agree k.2 k.1 e.2.key) →
        e ∈ s.elems → d.width ≤ e.2.width ∧ Agree d.width d.key e.2.key := by
      intro s e hext hbelow he
      cases s with
      | nil => cases he
      | node i b l' r' =>
        obtain ⟨hlt, hagree⟩ := hext b.lead rfl
        obtain ⟨hle, hagree'⟩ := hbelow rfl e he
        exact ⟨Nat.le_of_lt (Nat.lt_of_lt_of_le hlt hle),
          hagree.trans (hagree'.mono (Nat.le_of_lt hlt))⟩
    refine forall_mem_cons.2 ⟨⟨Nat.le_refl _, .refl _ _⟩, forall_mem_append.2 ⟨?_, ?_⟩⟩
    · exact fun e => hkid l e hlocal.left (ihl hl)
    · exact fun e => hkid r e hlocal.right (ihr hr)

theorem kid_leads (hs : Shaped s) (hk : s.label Cell.lead = some k)
    {e : Nat × Cell n V} (he : e ∈ s.elems) (hlead : e.2.Leads key) : Agree k.2 k.1 key := by
  obtain ⟨hle, hagree⟩ := below hs hk e he
  exact hagree.trans (hlead.mono hle)

/-! ## Lookup -/

/-- The entry a lookup ends at: of the nodes with a value that lead to the key, the shortest. -/
def Shortest (t : Core.Tree (Cell n V)) (key : BitVec n) (id : Nat) (d : Cell n V) : Prop :=
  (id, d) ∈ t.elems ∧ d.value.isSome ∧ d.Leads key ∧
    ∀ e ∈ t.elems, e.2.value.isSome → e.2.Leads key → d.width ≤ e.2.width

def NoneLeads (t : Core.Tree (Cell n V)) (key : BitVec n) : Prop :=
  ∀ e ∈ t.elems, e.2.value.isSome → ¬ e.2.Leads key

def Found (t : Core.Tree (Cell n V)) (key : BitVec n) : Option Nat → Prop
  | some id => ∃ d, Shortest t key id d
  | none => NoneLeads t key

theorem enters_spec (hl : Linked (Holds t.heap) parent s) (hs : Shaped s) (key : BitVec n) :
    (Trie.lookupFrom.enters t key s.root = .ok none ∧ ∀ k ∈ s.label Cell.lead,
      ¬ Agree k.2 k.1 key) ∨
      ∃ id d l r, s = .node id d l r ∧ Trie.lookupFrom.enters t key s.root = .ok (some id) ∧
        d.Leads key := by
  cases s with
  | nil => exact .inl ⟨rfl, nofun⟩
  | node id d l r =>
    have hmatch := matches_iff hs.1.width hs.1.tidy key
    have hres : Trie.lookupFrom.enters t key (some id) = .ok (if d.Leads key then some id else none) := by
      simp [Trie.lookupFrom.enters, deref_eq hl.1, Node.matches, hmatch, pure, Except.pure]
    by_cases hlead : d.Leads key
    · exact .inr ⟨id, d, l, r, rfl, by rw [Tree.root, hres, if_pos hlead], hlead⟩
    · refine .inl ⟨by rw [Tree.root, hres, if_neg hlead], ?_⟩
      rintro k ⟨⟩
      exact hlead

theorem noneLeads_of_label (hs : Shaped s) (h : ∀ k ∈ s.label Cell.lead, ¬ Agree k.2 k.1 key) :
    NoneLeads s key := by
  intro e he _ hlead
  cases s with
  | nil => cases he
  | node id d l r => exact h d.lead rfl (kid_leads hs rfl he hlead)

theorem other_not_leads {a b : BitVec n × Nat} (hapart : a.1.getMsbD d.width ≠ b.1.getMsbD d.width)
    (ha : d.width < a.2) (hb : d.width < b.2) (hlead : Agree a.2 a.1 key) :
    ¬ Agree b.2 b.1 key := by
  intro h
  exact hapart ((hlead d.width ha).trans (h d.width hb).symm)

theorem Found.of_kid {o : Core.Tree (Cell n V)} {res : Option Nat} (hvalue : d.value.isSome = false)
    (helems : ∀ e, e ∈ (node id d l r).elems ↔ e = (id, d) ∨ e ∈ s.elems ∨ e ∈ o.elems)
    (hother : NoneLeads o key) (h : Found s key res) : Found (.node id d l r) key res := by
  have hpass : ∀ e ∈ (node id d l r).elems, e.2.value.isSome → e.2.Leads key → e ∈ s.elems := by
    intro e he hval hlead
    rcases (helems e).1 he with rfl | hin | hin
    · rw [hvalue] at hval
      cases hval
    · exact hin
    · exact absurd hlead (hother e hin hval)
  cases res with
  | none => exact fun e he hval hlead => h e (hpass e he hval hlead) hval hlead
  | some p =>
    obtain ⟨b, hmem, hval, hlead, hmin⟩ := h
    exact ⟨b, (helems _).2 (.inr (.inl hmem)), hval, hlead,
      fun e he hv hle => hmin e (hpass e he hv hle) hv hle⟩

theorem lookupFrom_spec (hl : Linked (Holds t.heap) parent (.node id d l r))
    (hs : Shaped (.node id d l r)) (hkey : d.Leads key) (hfuel : n < fuel + d.width) :
    ∃ res, t.lookupFrom key fuel id = .ok res ∧ Found (.node id d l r) key res := by
  induction fuel generalizing id d l r parent with
  | zero =>
    have := hs.1.width
    omega
  | succ fuel ih =>
    obtain ⟨hcell, hll, hlr⟩ := hl
    have hlocal := hs.1
    have hsl : Shaped l := hs.2.1
    have hsr : Shaped r := hs.2.2
    rw [Trie.lookupFrom, deref_eq hcell, ok_bind]
    cases hvalue : d.value.isSome with
    | true =>
      refine ⟨some id, by simp [pure, Except.pure], d, mem_cons_self, hvalue, hkey, ?_⟩
      exact fun e he _ _ => (below hs rfl e he).1
    | false =>
      rcases enters_spec hll hsl key with ⟨hent, hno⟩ | ⟨p, b, l', r', rfl, hent, hlead⟩
      · rw [hent]
        rcases enters_spec hlr hsr key with ⟨hent', hno'⟩ | ⟨p, b, l', r', rfl, hent', hlead⟩
        · refine ⟨none, by rw [hent']; rfl, ?_⟩
          refine .of_kid hvalue (s := l) (o := r) (fun e => by simp [Tree.elems]) ?_ ?_
          · exact noneLeads_of_label hsr hno'
          · exact noneLeads_of_label hsl hno
        · have hext := hlocal.right b.lead rfl
          obtain ⟨res, hrun, hfound⟩ := ih hlr hsr hlead (by have := hext.1; simp only [Cell.lead] at this; omega)
          refine ⟨res, by rw [hent']; exact hrun, ?_⟩
          refine .of_kid hvalue (o := l) (fun e => ?_) ?_ hfound
          · simp only [Tree.elems, mem_cons, mem_append]
            tauto
          · exact noneLeads_of_label hsl hno
      · have hext := hlocal.left b.lead rfl
        obtain ⟨res, hrun, hfound⟩ := ih hll hsl hlead (by have := hext.1; simp only [Cell.lead] at this; omega)
        refine ⟨res, by rw [hent]; exact hrun, ?_⟩
        refine .of_kid hvalue (o := r) (fun e => ?_) ?_ hfound
        · simp only [Tree.elems, mem_cons, mem_append]
        · refine noneLeads_of_label hsr fun k hk => ?_
          exact other_not_leads (hlocal.apart b.lead rfl k hk) hext.1 (hlocal.right k hk).1 hlead

/-! ## The walks of an insertion -/

theorem goesAfter_spec (hl : Linked (Holds t.heap) parent s) (hs : Shaped s) (key : BitVec n)
    (hw : width ≤ n) :
    (t.goesAfter s.root key (leadMask n width) = .ok none ∧
        ∀ k ∈ s.label Cell.lead, Agree k.2 k.1 key → width < k.2) ∨
      ∃ id d l r, s = .node id d l r ∧ t.goesAfter s.root key (leadMask n width) = .ok (some id) ∧
        d.Leads key ∧ d.width ≤ width := by
  cases s with
  | nil => exact .inl ⟨rfl, nofun⟩
  | node id d l r =>
    have hmatch := matches_iff hs.1.width hs.1.tidy key
    have hwithin := leadMask_and_eq hs.1.width hw
    have hres : t.goesAfter (some id) key (leadMask n width) =
        .ok (if d.Leads key ∧ d.width ≤ width then some id else none) := by
      simp [Trie.goesAfter, deref_eq hl.1, Node.matches, hmatch, hwithin, pure, Except.pure]
    by_cases hlead : d.Leads key ∧ d.width ≤ width
    · exact .inr ⟨id, d, l, r, rfl, by rw [Tree.root, hres, if_pos hlead], hlead⟩
    · refine .inl ⟨by rw [Tree.root, hres, if_neg hlead], ?_⟩
      rintro k ⟨⟩ hagree
      exact Nat.lt_of_not_le fun hle => hlead ⟨hagree, hle⟩

/-- The node the new prefix belongs to or below, in its context: neither kid leads further. -/
structure Place (T : Core.Tree (Cell n V)) (key : BitVec n) (width : Nat)
    (c : List (Frame (Cell n V)))
    (id : Nat) (d : Cell n V) (l r : Core.Tree (Cell n V)) : Prop where
  tree : T = plug c (.node id d l r)
  leads : d.Leads key
  notLonger : d.width ≤ width
  left : ∀ k ∈ l.label Cell.lead, Agree k.2 k.1 key → width < k.2
  right : ∀ k ∈ r.label Cell.lead, Agree k.2 k.1 key → width < k.2

theorem walkPast_spec {T : Core.Tree (Cell n V)} {c : List (Frame (Cell n V))}
    (hl : Linked (Holds t.heap) none T) (hs : Shaped T) (hw : width ≤ n)
    (hT : T = plug c (.node id d l r)) (hlead : d.Leads key) (hle : d.width ≤ width)
    (hfuel : n < fuel + d.width) :
    ∃ c' id' d' l' r', t.walkPast key (leadMask n width) fuel id = .ok id' ∧
      Place T key width c' id' d' l' r' := by
  induction fuel generalizing c id d l r with
  | zero => omega
  | succ fuel ih =>
    rw [hT] at hl hs
    obtain ⟨-, hcell, hll, hlr⟩ := linked_plug.1 hl
    obtain ⟨-, hlocal, hsl, hsr⟩ := everywhere_plug.1 hs
    rw [Trie.walkPast, deref_eq hcell, ok_bind]
    rcases goesAfter_spec hll hsl key hw with ⟨hgo, hno⟩ | ⟨p, b, l', r', rfl, hgo, hlead', hle'⟩
    · rcases goesAfter_spec hlr hsr key hw with ⟨hgo', hno'⟩ | ⟨p, b, l', r', rfl, hgo', hlead', hle'⟩
      · refine ⟨c, id, d, l, r, ?_, hT, hlead, hle, hno, hno'⟩
        rw [hgo, hgo']
        rfl
      · have hext : d.width < b.width := (hlocal.right b.lead rfl).1
        obtain ⟨c', p', d', l'', r'', hrun, hplace⟩ :=
          ih (c := .inRight id d l :: c) hT hlead' hle' (by omega)
        refine ⟨c', p', d', l'', r'', ?_, hplace⟩
        rw [hgo, hgo']
        exact hrun
    · have hext : d.width < b.width := (hlocal.left b.lead rfl).1
      obtain ⟨c', p', d', l'', r'', hrun, hplace⟩ :=
        ih (c := .inLeft id d r :: c) hT hlead' hle' (by omega)
      refine ⟨c', p', d', l'', r'', ?_, hplace⟩
      rw [hgo]
      exact hrun

theorem extendMask_leadMask (hw : w < n) : Trie.extendMask (leadMask n w) = leadMask n (w + 1) := by
  refine BitVec.eq_of_getMsbD_eq fun i hi => ?_
  rw [getMsbD_leadMask hw, Trie.extendMask, BitVec.getMsbD_or, BitVec.getMsbD_or,
    BitVec.getMsbD_ushiftRight, BitVec.getMsbD_shiftLeft, getMsbD_leadMask (Nat.le_of_lt hw),
    getMsbD_leadMask (Nat.le_of_lt hw), BitVec.getMsbD_one]
  rw [Bool.eq_iff_iff]
  simp
  omega

/-- The walk down an edge ends at the last bit the two prefixes share. -/
theorem walkDown_spec {kidKey : BitVec n} (hwidth : width ≤ n)
    (hagree : Agree w key kidKey) (hle : w ≤ width) (hfuel : width < fuel + w) :
    ∃ cp, Trie.walkDown key kidKey (leadMask n width) fuel (leadMask n w) = .ok (leadMask n cp) ∧
      w ≤ cp ∧ cp ≤ width ∧ Agree cp key kidKey ∧
      (cp < width → key.getMsbD cp ≠ kidKey.getMsbD cp) := by
  induction fuel generalizing w with
  | zero => omega
  | succ fuel ih =>
    rw [Trie.walkDown]
    by_cases hend : w = width
    · subst hend
      exact ⟨w, by simp, Nat.le_refl w, hle, hagree, fun h => absurd h (Nat.lt_irrefl w)⟩
    have hlt : w < n := by omega
    have hmask : leadMask n w ≠ leadMask n width := fun h =>
      hend ((leadMask_inj (Nat.le_of_lt hlt) hwidth).1 h)
    have hcmp : key &&& leadMask n (w + 1) = kidKey &&& leadMask n (w + 1) ↔
        key.getMsbD w = kidKey.getMsbD w := by
      rw [and_leadMask_eq hlt, Agree.succ_iff]
      exact ⟨fun h => h.2, fun h => ⟨hagree, h⟩⟩
    rw [extendMask_leadMask hlt]
    by_cases hbit : key.getMsbD w = kidKey.getMsbD w
    · obtain ⟨cp, hrun, hwcp, hrest⟩ := ih (Agree.succ_iff.2 ⟨hagree, hbit⟩) (by omega) (by omega)
      refine ⟨cp, ?_, by omega, hrest⟩
      simpa [hmask, hcmp.2 hbit] using hrun
    · refine ⟨w, ?_, Nat.le_refl w, hle, hagree, fun _ => hbit⟩
      have hne : key &&& leadMask n (w + 1) ≠ kidKey &&& leadMask n (w + 1) := fun h => hbit (hcmp.1 h)
      simp [hne]

end Gem5Cxl.L3.TrieShape
