import Mathlib.Algebra.Order.BigOperators.Group.Finset
import Mathlib.Algebra.Order.Ring.Nat
import Gem5Cxl.L3Protocol.RenameRestore

/-!
# Every physical register has one owner

A physical register that can be renamed is in the free list, in a thread's map, the
previous register of a history entry that changed a mapping, or among the registers of
squashed instructions that are not free yet (`freeingInProgress`).

**Result.** `registers_owned`: in every run in which an instruction is renamed only when
`canRename` holds, no assertion fails, and in every state each of these registers is in
exactly one of the four, and only once.

**Why.** Every step moves registers from one place to another (`Moved`). A rename takes one
from the free list, puts it in the map and what it replaces in the history; an undone
rename does the reverse, the register it had taken going to `freeingInProgress`; a commit
frees what was replaced.
-/
namespace Gem5Cxl.L3.Renaming

open Core Core.UndoLog L1 L2.O3 Function List Rename

/-! ## Places -/

theorem sum_update_place {ι α : Type} [DecidableEq ι] (s : Finset ι) (g : α → Nat) (f : ι → α)
    {i : ι} (hi : i ∈ s)
    (a : α) : (∑ x ∈ s, g (update f i a x)) + g (f i) = (∑ x ∈ s, g (f x)) + g a := by
  have hrest : ∑ x ∈ s.erase i, g (update f i a x) = ∑ x ∈ s.erase i, g (f x) := by
    refine Finset.sum_congr rfl ?_
    intro x hx
    rw [update_of_ne (Finset.ne_of_mem_erase hx)]
  have hnew := Finset.add_sum_erase s (fun x => g (update f i a x)) hi
  have hold := Finset.add_sum_erase s (fun x => g (f x)) hi
  simp only [update_self] at hnew
  omega

def archRegs (numRegs : RegClassType → Nat) : Finset RegId :=
  (renameClasses.flatMap fun c => (List.range (numRegs c)).map fun i => ⟨c, i⟩).toFinset

variable {a : RegId} {r : Rename} {n tid : Nat} {s : Sys} {dests : List DestReg}
  {rest : List PhysRegId}
  {k seqNum t : Nat} {x : PhysRegId} {r' : Rename} (cfg : Config) (p : PhysRegId)

theorem mem_renameClasses (h : a.isRenameable = true) : a.regClass ∈ renameClasses := by
  obtain ⟨c, i⟩ := a
  revert h
  cases c <;> simp [RegId.isRenameable, renameClasses]

theorem mem_archRegs {numRegs : RegClassType → Nat} :
    a ∈ archRegs numRegs ↔ a.regClass ∈ renameClasses ∧ a.index < numRegs a.regClass := by
  simp only [archRegs, mem_toFinset, mem_flatMap, mem_map, mem_range]
  constructor
  · rintro ⟨c, hc, i, hi, rfl⟩
    exact ⟨hc, hi⟩
  · rintro ⟨hc, hi⟩
    exact ⟨a.regClass, hc, a.index, hi, rfl⟩

section
variable (r : Rename) (numThreads : Nat) (p : PhysRegId)

def inFree : Nat := (r.freeLists p.regClass).count p

def inMap (m : RegId → PhysRegId) : Nat := ∑ a ∈ archRegs r.numRegs, if m a = p then 1 else 0

def inMaps : Nat := ∑ t ∈ Finset.range numThreads, inMap r p (r.renameMap t)

/-- How often it is what a changed mapping had before. -/
def replaced (history : List RenameHistory) : Nat :=
  history.countP fun e => e.newPhysReg ≠ e.prevPhysReg ∧ e.prevPhysReg = p

def inHistory : Nat := ∑ t ∈ Finset.range numThreads, replaced p (r.historyBuffer t)

def inFreeing : Nat := ∑ t ∈ Finset.range numThreads, (r.freeingInProgress t).count p

/-- How often it is anywhere. -/
def places : Nat :=
  inFree r p + inMaps r numThreads p + inHistory r numThreads p + inFreeing r numThreads p

end

/-- A physical register that can be renamed. -/
def Renamable (numPhysRegs : RegClassType → Nat) (p : PhysRegId) : Prop :=
  p.regClass ∈ renameClasses ∧ p.index < numPhysRegs p.regClass

/-- Each register has one owner. -/
def Owned (s : Sys) : Prop := ∀ p, Renamable s.numPhysRegs p → places s.rename s.numThreads p = 1

def CanRename (s : Sys) : Ev → Prop
  | .renameDestRegs inst _ => s.rename.canRename inst = true
  | _ => True

/-- The invariant: nothing else is in one of the places either. -/
structure OneOwner (s : Sys) : Prop extends Inv s where
  renamable : ∀ p, Renamable s.numPhysRegs p → places s.rename s.numThreads p = 1
  nothingElse : ∀ p, ¬ Renamable s.numPhysRegs p → places s.rename s.numThreads p = 0

def Moved (n : Nat) (r r' : Rename) : Prop := ∀ p, places r' n p = places r n p

/-! ## The moves -/

theorem inMap_update (r : Rename) (p : PhysRegId) (m : RegId → PhysRegId)
    (ha : a ∈ archRegs r.numRegs)
    (x : PhysRegId) :
    inMap r p (update m a x) + (if m a = p then 1 else 0) = inMap r p m + if x = p then 1 else 0 :=
  sum_update_place (archRegs r.numRegs) (fun q => if q = p then 1 else 0) m ha x

theorem inMaps_setMap (ht : t < n) (ha : a ∈ archRegs r.numRegs) (x p : PhysRegId) :
    inMaps (r.setMap t a x) n p + (if r.renameMap t a = p then 1 else 0) =
      inMaps r n p + if x = p then 1 else 0 := by
  have hsum : inMaps (r.setMap t a x) n p + inMap r p (r.renameMap t) =
      inMaps r n p + inMap r p (update (r.renameMap t) a x) :=
    sum_update_place (.range n) (inMap r p) r.renameMap (mem_range.2 ht) _
  have hone := inMap_update r p (r.renameMap t) ha x
  omega

theorem inHistory_setHistory (r : Rename) (ht : t < n) (p : PhysRegId)
    (history : List RenameHistory) :
    inHistory (r.setHistory t history) n p + replaced p (r.historyBuffer t) =
      inHistory r n p + replaced p history :=
  sum_update_place (.range n) (replaced p) r.historyBuffer (mem_range.2 ht) history

theorem replaced_cons (e : RenameHistory) (history : List RenameHistory) :
    replaced p (e :: history) =
      replaced p history + if e.newPhysReg ≠ e.prevPhysReg ∧ e.prevPhysReg = p then 1 else 0 := by
  simp [replaced, countP_cons]

theorem replaced_append (l l' : List RenameHistory) :
    replaced p (l ++ l') = replaced p l + replaced p l' := by
  simp [replaced]

theorem inFree_addReg (r : Rename) (x p : PhysRegId) :
    inFree (r.addReg x) p = inFree r p + if x = p then 1 else 0 := by
  unfold inFree addReg
  by_cases hc : p.regClass = x.regClass
  · simp only [hc, update_self, count_append, count_singleton, beq_iff_eq]
  · have hne : ¬ x = p := fun h => hc (by rw [h])
    simp only [update_of_ne hc, hne, if_false, add_zero]

theorem places_addReg (r : Rename) (x p : PhysRegId) :
    places (r.addReg x) n p = places r n p + if x = p then 1 else 0 := by
  have hfree := inFree_addReg r x p
  show _ + inMaps r n p + inHistory r n p + inFreeing r n p = _
  unfold places
  omega

theorem places_setHistory (r : Rename) (ht : t < n) (p : PhysRegId) (history : List RenameHistory) :
    places (r.setHistory t history) n p + replaced p (r.historyBuffer t) =
      places r n p + replaced p history := by
  have hsum := inHistory_setHistory r ht p history
  show inFree r p + inMaps r n p + _ + inFreeing r n p + _ = _
  unfold places
  omega

theorem inFree_taken (h : r.freeLists x.regClass = x :: rest) (p : PhysRegId) :
    (update r.freeLists x.regClass rest p.regClass).count p +
      (if x = p then 1 else 0) = inFree r p := by
  unfold inFree
  by_cases hc : p.regClass = x.regClass
  · rw [hc, update_self, h, count_cons]
    simp only [beq_iff_eq]
  · have hne : ¬ x = p := fun hx => hc (by rw [hx])
    rw [update_of_ne hc, if_neg hne, add_zero]

/-- A register that is free is not mapped, if it has only one place. -/
theorem taken_ne (ht : t < n)
    (ha : a ∈ archRegs r.numRegs) (hfree : r.freeLists x.regClass = x :: rest)
    (hone : places r n x ≤ 1) :
    x ≠ r.renameMap t a := by
  intro hx
  have hmap : 1 ≤ inMap r x (r.renameMap t) := by
    refine le_trans ?_ (Finset.single_le_sum (fun _ _ => Nat.zero_le _) ha)
    simp [← hx]
  have hmaps : 1 ≤ inMaps r n x :=
    le_trans hmap (Finset.single_le_sum (f := fun t => inMap r x (r.renameMap t)) (fun _ _ => Nat.zero_le _)
      (mem_range.2 ht))
  have hin : 1 ≤ inFree r x := by simp [inFree, hfree]
  unfold places at hone
  omega

theorem Renamed.moved (h : Renamed tid seqNum a r r') (ht : Typed r)
    (htid : tid < n) (hr : InRange r.numRegs a) (hone : ∀ p, places r n p ≤ 1) : Moved n r r' := by
  intro p
  cases h with
  | fixed hren =>
    have hhist := places_setHistory r htid p
      (⟨seqNum, a, r.mapping tid a, r.mapping tid a⟩ :: r.historyBuffer tid)
    rw [replaced_cons] at hhist
    simp only [ne_eq, not_true_eq_false, false_and, if_false] at hhist
    omega
  | @taken x rest hren hfree =>
    have hx : x.regClass = a.regClass := ht.free a.regClass x (by rw [hfree]; exact mem_cons_self)
    have ha : a ∈ archRegs r.numRegs := mem_archRegs.2 ⟨mem_renameClasses hren, hr hren⟩
    rw [← hx] at hfree
    have hne := taken_ne htid ha hfree (hone x)
    have hmap : r.mapping tid a = r.renameMap tid a := mapping_of_renameable hren
    have hfr := inFree_taken hfree p
    have hmaps := inMaps_setMap htid ha x p
    have hhist := inHistory_setHistory r htid p (⟨seqNum, a, x, r.mapping tid a⟩ :: r.historyBuffer tid)
    rw [replaced_cons] at hhist
    simp only [hmap, hne, ne_eq, not_false_eq_true, true_and] at hhist
    show (update r.freeLists a.regClass rest p.regClass).count p + inMaps (r.setMap tid a x) n p +
      inHistory (r.setHistory tid _) n p + inFreeing r n p = _
    rw [← hx, hmap]
    unfold places
    omega

theorem Undone.moved {e : RenameHistory} (h : Undone tid e r r')
    (rest : List RenameHistory) (htid : tid < n) (hf : Fit r.numRegs e)
    (hcur : r.mapping tid e.archReg = e.newPhysReg) :
    Moved n (r.setHistory tid (e :: rest)) (r'.setHistory tid rest) := by
  intro p
  have hold := inHistory_setHistory r htid p (e :: rest)
  have hnew := inHistory_setHistory r htid p rest
  rw [replaced_cons] at hold
  cases h with
  | same h =>
    simp only [h, ne_eq, not_true_eq_false, false_and, if_false] at hold
    show inFree r p + inMaps r n p + _ + inFreeing r n p = inFree r p + inMaps r n p + _ + inFreeing r n p
    omega
  | changed h hren =>
    have ha : e.archReg ∈ archRegs r.numRegs := mem_archRegs.2 ⟨mem_renameClasses hren, hf.range hren⟩
    have hmaps := inMaps_setMap htid ha e.prevPhysReg p
    rw [← mapping_of_renameable hren, hcur] at hmaps
    have hfreeing := sum_update_place (.range n) (fun l => l.count p) r.freeingInProgress (mem_range.2 htid)
      (r.freeingInProgress tid ++ [e.newPhysReg])
    simp only [h, ne_eq, not_false_eq_true, true_and] at hold
    simp only [count_append, count_singleton, beq_iff_eq] at hfreeing
    have hin : inFreeing r n p = ∑ t ∈ .range n, (r.freeingInProgress t).count p := rfl
    show inFree r p + inMaps (r.setMap tid e.archReg e.prevPhysReg) n p + inHistory (r.setHistory tid rest) n p +
        (∑ t ∈ .range n, (update r.freeingInProgress tid
          (r.freeingInProgress tid ++ [e.newPhysReg]) t).count p) =
      inFree r p + inMaps r n p + inHistory (r.setHistory tid (e :: rest)) n p + inFreeing r n p
    omega

/-! ## The steps -/

/-- The free lists have a register for each destination. -/
def Room (dests : List DestReg) (r : Rename) : Prop :=
  ∀ c ∈ renameClasses, dests.countP (·.reg.regClass = c) ≤ (r.freeLists c).length

theorem Renamed.room {d : DestReg} (h : Renamed tid seqNum d.reg r r')
    (hroom : Room (d :: dests) r) : Room dests r' := by
  intro c hc
  have hle := hroom c hc
  rw [countP_cons] at hle
  cases h with
  | fixed hren => exact le_trans (Nat.le_add_right _ _) hle
  | @taken x rest hren hfree =>
    show _ ≤ (update r.freeLists d.reg.regClass rest c).length
    by_cases hcls : c = d.reg.regClass
    · subst hcls
      rw [hfree] at hle
      simp only [decide_true, if_true, length_cons] at hle
      rw [update_self]
      omega
    · rw [update_of_ne hcls]
      exact le_trans (Nat.le_add_right _ _) hle

theorem renameDestRegs_moved (seqNum : Nat) (ht : Typed r)
    (hd : ∀ d ∈ dests, InRange r.numRegs d.reg ∧ d.numPinnedWrites = 0) (htid : tid < n)
    (hone : ∀ p, places r n p ≤ 1) (hroom : Room dests r) :
    ∃ r', dests.foldlM (renameDestReg tid seqNum) r = .ok r' ∧ Moved n r r' := by
  induction dests generalizing r with
  | nil => exact ⟨r, rfl, fun _ => rfl⟩
  | cons d dests ih =>
    obtain ⟨hrange, hpin⟩ := hd d mem_cons_self
    rcases renameDestReg_cases tid seqNum ht hpin with ⟨r₁, hrun, hren⟩ | ⟨hren, hnil, -⟩
    · have hmoved := hren.moved ht htid hrange hone
      obtain ⟨e, -, -, hrec⟩ := hren.records
      obtain ⟨r₂, hrun₂, hmoved₂⟩ := ih (hren.typed ht)
        (fun d' hd' => hrec.numRegs ▸ hd d' (mem_cons_of_mem _ hd'))
        (fun p => (hmoved p).trans_le (hone p)) (hren.room hroom)
      exact ⟨r₂, by rw [foldlM_cons, hrun, ok_bind, hrun₂], fun p => (hmoved₂ p).trans (hmoved p)⟩
    · -- there is a free register of the class
      have hle := hroom _ (mem_renameClasses hren)
      rw [hnil] at hle
      simp at hle

theorem canRename_room {inst : DynInst} (h : r.canRename inst = true) : Room inst.destRegs r := by
  intro c hc
  exact of_decide_eq_true (all_eq_true.1 h c hc)

theorem setHistory_self (r : Rename) (tid : Nat) : r.setHistory tid (r.historyBuffer tid) = r := by
  rw [setHistory, update_eq_self]

theorem doSquash_moved (h : Inv s) (htid : tid < s.numThreads) :
    ∃ r, s.rename.doSquash k tid = .ok r ∧ Moved s.numThreads s.rename r := by
  obtain ⟨r, hloop, -, hmoved⟩ := squashLoop_rule
    (P := fun left r => Squashing tid (s.initial tid) (changes (s.done tid)) s.rename left r ∧
      Moved s.numThreads s.rename (r.setHistory tid left))
    (fun e rest r _ hP => by
      obtain ⟨hsq, hmoved⟩ := hP
      obtain ⟨r', hrun, hu, hsq'⟩ := hsq.undo
      have hcur : r.mapping tid e.archReg = e.newPhysReg := by
        rw [hsq.mapping]
        exact state_key
      have hm := hu.moved rest htid (hsq.fit e mem_cons_self) hcur
      exact ⟨r', hrun, hsq', fun p => (hm p).trans (hmoved p)⟩)
    ⟨h.squashing tid, by rw [setHistory_self]; exact fun _ => rfl⟩
  exact ⟨_, hloop, hmoved⟩

theorem removeFromHistory_moved (r : Rename) (htid : tid < n) :
    Moved n r (r.removeFromHistory k tid) := by
  obtain ⟨r', hloop, hmoved⟩ := removeLoop_rule (n := k)
    (P := fun left r' => Moved n r (r'.setHistory tid left.reverse))
    (fun e rest r' _ hP p => by
      have hP := hP p
      have hold := places_setHistory r' htid p (e :: rest).reverse
      rw [hP, reverse_cons, replaced_append, replaced_cons] at hold
      have hnil : replaced p [] = 0 := rfl
      split
      · rename_i hch
        have hnew := places_setHistory (r'.addReg e.prevPhysReg) htid p rest.reverse
        rw [places_addReg, show (r'.addReg e.prevPhysReg).historyBuffer = r'.historyBuffer from rfl] at hnew
        simp only [hch, not_false_eq_true, ne_eq, true_and] at hold
        omega
      · rename_i hch
        have hnew := places_setHistory r' htid p rest.reverse
        simp only [hch, false_and, if_false] at hold
        omega)
    (r.historyBuffer tid).reverse (by rw [reverse_reverse, setHistory_self]; exact fun _ => rfl)
  simpa only [removeFromHistory, hloop] using hmoved

theorem foldl_addReg_places (l : List PhysRegId) (r : Rename) (p : PhysRegId) :
    places (l.foldl addReg r) n p = places r n p + l.count p ∧
      (l.foldl addReg r).freeingInProgress = r.freeingInProgress := by
  induction l generalizing r with
  | nil => exact ⟨rfl, rfl⟩
  | cons x l ih =>
    obtain ⟨hplaces, hfreeing⟩ := ih (r.addReg x)
    refine ⟨?_, hfreeing⟩
    rw [foldl_cons, hplaces, places_addReg, count_cons]
    simp only [beq_iff_eq]
    omega

theorem freeSquashed_moved (htid : tid < n) : Moved n r (r.freeSquashed tid) := by
  intro p
  obtain ⟨hplaces, hfreeing⟩ := foldl_addReg_places (n := n) (r.freeingInProgress tid) r p
  generalize hr : (r.freeingInProgress tid).foldl addReg r = r' at hplaces hfreeing
  have hsum := sum_update_place (.range n) (fun l => l.count p) r'.freeingInProgress (mem_range.2 htid) []
  have hin : inFreeing r' n p = ∑ t ∈ .range n, (r'.freeingInProgress t).count p := rfl
  rw [freeSquashed, hr]
  show inFree r' p + inMaps r' n p + inHistory r' n p +
    (∑ t ∈ .range n, (update r'.freeingInProgress tid [] t).count p) = _
  rw [← hfreeing] at hplaces
  unfold places at hplaces ⊢
  rw [count_nil] at hsum
  omega

theorem OneOwner.of_moved {s' : Sys} (h : OneOwner s) (hi : Inv s')
    (hm : Moved s.numThreads s.rename s'.rename)
    (hn : s'.numThreads = s.numThreads) (hp : s'.numPhysRegs = s.numPhysRegs) : OneOwner s' := by
  refine ⟨hi, ?_, ?_⟩
  · intro p
    rw [hn, hp, hm p]
    exact h.renamable p
  · intro p
    rw [hn, hp, hm p]
    exact h.nothingElse p

theorem OneOwner.le_one (h : OneOwner s) (p : PhysRegId) : places s.rename s.numThreads p ≤ 1 := by
  by_cases hp : Renamable s.numPhysRegs p
  · exact le_of_eq (h.renamable p hp)
  · rw [h.nothingElse p hp]
    exact Nat.zero_le 1

theorem OneOwner.step {e : Ev} (h : OneOwner s) (hen : enabled s e) (hcan : CanRename s e) :
    ∃ s', step s e = .ok s' ∧ OneOwner s' := by
  cases e with
  | renameDestRegs inst tid =>
    obtain ⟨r, hrun, hmoved⟩ := renameDestRegs_moved inst.seqNum h.typed hen.2.1 hen.1 h.le_one (canRename_room hcan)
    have hstep : Renaming.step s (.renameDestRegs inst tid) = .ok _ := bind_eq_ok.2 ⟨r, hrun, rfl⟩
    exact ⟨_, hstep, h.of_moved (h.toInv.renameDestRegs hen hstep) hmoved rfl rfl⟩
  | doSquash k tid =>
    obtain ⟨r, hrun, hmoved⟩ := doSquash_moved h.toInv hen.1
    have hstep : Renaming.step s (.doSquash k tid) = .ok _ := bind_eq_ok.2 ⟨r, hrun, rfl⟩
    exact ⟨_, hstep, h.of_moved (h.toInv.doSquash hstep) hmoved rfl rfl⟩
  | removeFromHistory k tid =>
    exact ⟨_, rfl, h.of_moved (h.toInv.removeFromHistory rfl) (removeFromHistory_moved s.rename hen) rfl rfl⟩
  | freeSquashed tid =>
    exact ⟨_, rfl, h.of_moved (h.toInv.freeSquashed rfl) (freeSquashed_moved hen) rfl rfl⟩

/-! ## The first state -/

theorem start_inFree (p : PhysRegId) :
    inFree cfg.rename p = if p.regClass ∈ renameClasses ∧
      cfg.numThreads * cfg.numRegs p.regClass ≤ p.index ∧
      p.index < cfg.numPhysRegs p.regClass then 1 else 0 := by
  obtain ⟨c, i⟩ := p
  simp only [inFree, Config.rename]
  by_cases hc : c ∈ renameClasses
  · rw [if_pos hc]
    have hnodup : ((range (cfg.numPhysRegs c - cfg.numThreads * cfg.numRegs c)).map fun i =>
        (⟨c, cfg.numThreads * cfg.numRegs c + i⟩ : PhysRegId)).Nodup := by
      refine nodup_range.map ?_
      intro j k hjk
      simpa using hjk
    rw [hnodup.count]
    refine if_congr ?_ rfl rfl
    simp only [mem_map, mem_range, PhysRegId.mk.injEq, true_and, hc]
    constructor
    · rintro ⟨j, hj, rfl⟩
      omega
    · rintro ⟨hle, hlt⟩
      exact ⟨i - cfg.numThreads * cfg.numRegs c, by omega, by omega⟩
  · rw [if_neg hc, if_neg (fun h => hc h.1)]
    rfl

theorem start_inMaps (p : PhysRegId) :
    inMaps cfg.rename cfg.numThreads p = if p.regClass ∈ renameClasses ∧
      p.index < cfg.numThreads * cfg.numRegs p.regClass then 1 else 0 := by
  obtain ⟨c, k⟩ := p
  simp only [inMaps, inMap, Config.rename]
  split
  · rename_i h
    obtain ⟨hc, hk⟩ := h
    have hm : 0 < cfg.numRegs c := by
      by_contra hzero
      simp [Nat.eq_zero_of_not_pos hzero] at hk
    have hmod : k % cfg.numRegs c < cfg.numRegs c := Nat.mod_lt _ hm
    have hk' : k / cfg.numRegs c * cfg.numRegs c + k % cfg.numRegs c = k := by
      rw [mul_comm]
      exact Nat.div_add_mod _ _
    -- thread and register of a register that is mapped first
    have hwho : ∀ t, ∀ a ∈ archRegs cfg.numRegs, (⟨a.regClass, t * cfg.numRegs a.regClass + a.index⟩ : PhysRegId) = ⟨c, k⟩ →
        t = k / cfg.numRegs c ∧ a = ⟨c, k % cfg.numRegs c⟩ := by
      rintro t ⟨c', i⟩ ha heq
      rw [PhysRegId.mk.injEq] at heq
      obtain ⟨rfl, heq⟩ := heq
      have hsum : i + cfg.numRegs c' * t = k := by rw [← heq, mul_comm, add_comm]
      obtain ⟨ht, hi⟩ := (Nat.div_mod_unique hm).2 ⟨hsum, (mem_archRegs.1 ha).2⟩
      exact ⟨ht.symm, congrArg (RegId.mk c') hi.symm⟩
    rw [Finset.sum_eq_single (k / cfg.numRegs c), Finset.sum_eq_single ⟨c, k % cfg.numRegs c⟩]
    · simp [hk']
    · exact fun a ha hne => if_neg fun heq => hne (hwho _ a ha heq).2
    · intro hno
      exact absurd (mem_archRegs.2 ⟨hc, hmod⟩) hno
    · exact fun t _ hne => Finset.sum_eq_zero fun a ha => if_neg fun heq => hne (hwho t a ha heq).1
    · intro hno
      exact absurd (mem_range.2 (Nat.div_lt_of_lt_mul (by rw [mul_comm]; exact hk))) hno
  · rename_i h
    refine Finset.sum_eq_zero fun t ht => Finset.sum_eq_zero ?_
    rintro ⟨c', i⟩ ha
    rw [mem_archRegs] at ha
    refine if_neg fun heq => h ?_
    obtain ⟨rfl, rfl⟩ := heq
    refine ⟨ha.1, ?_⟩
    calc t * cfg.numRegs c' + i < t * cfg.numRegs c' + cfg.numRegs c' := Nat.add_lt_add_left ha.2 _
      _ = (t + 1) * cfg.numRegs c' := (Nat.succ_mul _ _).symm
      _ ≤ cfg.numThreads * cfg.numRegs c' := Nat.mul_le_mul_right _ (mem_range.1 ht)

theorem OneOwner.init (h : machine.init s) : OneOwner s := by
  have hi := Inv.init h
  obtain ⟨cfg, henough, rfl⟩ := h
  have hplaces : ∀ p, places cfg.rename cfg.numThreads p = inFree cfg.rename p + inMaps cfg.rename cfg.numThreads p := by
    intro p
    have hhist : inHistory cfg.rename cfg.numThreads p = 0 := Finset.sum_eq_zero fun _ _ => rfl
    have hfreeing : inFreeing cfg.rename cfg.numThreads p = 0 := Finset.sum_eq_zero fun _ _ => rfl
    rw [places, hhist, hfreeing]
    rfl
  refine ⟨hi, ?_, ?_⟩
  · rintro p ⟨hc, hlt⟩
    show places cfg.rename cfg.numThreads p = 1
    rw [hplaces, start_inFree, start_inMaps]
    by_cases hk : p.index < cfg.numThreads * cfg.numRegs p.regClass
    · rw [if_neg (by omega), if_pos ⟨hc, hk⟩]
    · rw [if_pos ⟨hc, by omega, hlt⟩, if_neg (by omega)]
  · intro p hp
    show places cfg.rename cfg.numThreads p = 0
    rw [hplaces, start_inFree, start_inMaps, if_neg (fun h => hp ⟨h.1, h.2.2⟩), if_neg]
    rintro ⟨hc, hlt⟩
    exact hp ⟨hc, lt_of_lt_of_le hlt (henough _ hc)⟩

/-- **Ownership.** In every run in which renames are attempted only when `canRename` holds, no
assertion fails, and in every state reached each physical register that can be renamed is in exactly
one of the free list, the maps, the history and `freeingInProgress`, and in it once. -/
theorem registers_owned {x : Except Fault Sys} (hr : (machine.under CanRename).Reachable x) :
    ∃ s, x = .ok s ∧ Owned s := by
  obtain ⟨s, rfl, h⟩ := Machine.total (fun s => OneOwner.init)
    (fun s e h hen hcan => h.step hen hcan) hr
  exact ⟨s, rfl, h.renamable⟩

instance (s : Sys) : (e : Ev) → Decidable (CanRename s e)
  | .renameDestRegs _ _ => inferInstanceAs (Decidable (_ = true))
  | .doSquash _ _ | .removeFromHistory _ _ | .freeSquashed _ => isTrue trivial

/-- Instructions 1 to 3 rename register 0; 1 is committed, 3 squashed and its register made free. -/
theorem registers_owned_after_squash : ∃ s, (machine.under CanRename).Reachable (.ok s) ∧
    s.rename.freeLists .int = [⟨.int, 7⟩, ⟨.int, 0⟩, ⟨.int, 6⟩] ∧ Owned s := by
  have hr := Machine.under_decided (M := machine) (P := fun s e => enabled s e ∧ CanRename s e) (fun _ _ => id)
    [.renameDestRegs ⟨1, [intReg 0]⟩ 0, .renameDestRegs ⟨2, [intReg 0]⟩ 0, .renameDestRegs ⟨3, [intReg 0]⟩ 0,
      .removeFromHistory 1 0, .doSquash 2 0, .freeSquashed 0]
    ⟨twoThreads, twoThreads_enough, rfl⟩ rfl
  obtain ⟨s, hs, howned⟩ := registers_owned hr
  cases hs
  exact ⟨_, hr, rfl, howned⟩

end Gem5Cxl.L3.Renaming
