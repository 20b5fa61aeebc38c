import Mathlib.Data.List.Basic
import Gem5Cxl.Core.Ordered
import Gem5Cxl.Core.UndoLog
import Gem5Cxl.L2Machine.Rename

/-!
# A squash restores the rename map

Beside the rename stage the state has, for every thread, the instructions that were renamed
and not squashed, youngest first: those that are not committed (`pending`) and those that
are (`done`). With each it has the history entries it made and the map just after it.

* Instructions are renamed in increasing order of their sequence numbers.
* A squash keeps what is committed.
* No register is pinned.

**Result.** `squash_restores`: in every state that a run reaches, `doSquash s t` succeeds,
and after it thread `t` has the map that it had just after the youngest instruction up to
`s` was renamed, or its first map if there is none; the other threads have their maps; and
the history buffer of `t` has the entries of its pending instructions up to `s`.

**Why.** The log of all renames of a thread, committed ones included, always leads from its
first map to its map (`Core.UndoLog`); the history buffer is the young part of the log, and
the squashed entries are the young part of that.
-/
namespace Gem5Cxl.L3.Renaming

open Core Core.UndoLog L1 L2.O3 Function Rename Function
open List hiding lookup

structure Instr where
  seqNum : Nat
  /-- Its history entries, youngest first. -/
  entries : List RenameHistory
  /-- The map of its thread just after it was renamed. -/
  mapAfter : RegId → PhysRegId

structure Sys where
  rename : Rename
  numThreads : Nat
  numPhysRegs : RegClassType → Nat
  initial : Nat → RegId → PhysRegId
  pending : Nat → List Instr := fun _ => []
  done : Nat → List Instr := fun _ => []

inductive Ev
  | renameDestRegs (inst : DynInst) (tid : Nat)
  | doSquash (squashedSeqNum tid : Nat)
  | removeFromHistory (instSeqNum tid : Nat)
  | freeSquashed (tid : Nat)

/-- What is new in the first of two history buffers. -/
def added (history old : List RenameHistory) : List RenameHistory :=
  history.take (history.length - old.length)

def step (s : Sys) : Ev → Except Fault Sys
  | .renameDestRegs inst tid => do
    let r ← s.rename.renameDestRegs inst tid
    let instr : Instr :=
      ⟨inst.seqNum, added (r.historyBuffer tid) (s.rename.historyBuffer tid), r.mapping tid⟩
    return { s with rename := r, pending := update s.pending tid (instr :: s.pending tid) }
  | .doSquash squashedSeqNum tid => do
    let r ← s.rename.doSquash squashedSeqNum tid
    return { s with
      rename := r
      pending := update s.pending tid ((s.pending tid).filter (·.seqNum ≤ squashedSeqNum)) }
  | .removeFromHistory instSeqNum tid =>
    .ok { s with
      rename := s.rename.removeFromHistory instSeqNum tid
      pending := update s.pending tid ((s.pending tid).filter (instSeqNum < ·.seqNum))
      done := update s.done tid ((s.pending tid).filter (·.seqNum ≤ instSeqNum) ++ s.done tid) }
  | .freeSquashed tid => .ok { s with rename := s.rename.freeSquashed tid }

/-- The instructions of a thread that were not squashed, youngest first. -/
def Sys.live (s : Sys) (tid : Nat) : List Instr := s.pending tid ++ s.done tid

def InRange (numRegs : RegClassType → Nat) (r : RegId) : Prop :=
  r.isRenameable = true → r.index < numRegs r.regClass
  deriving Decidable

def enabled (s : Sys) : Ev → Prop
  | .renameDestRegs inst tid => tid < s.numThreads ∧
      (∀ d ∈ inst.destRegs, InRange s.rename.numRegs d.reg ∧ d.numPinnedWrites = 0) ∧
      ∀ i ∈ s.live tid, i.seqNum < inst.seqNum
  | .doSquash squashedSeqNum tid => tid < s.numThreads ∧ ∀ i ∈ s.done tid, i.seqNum ≤ squashedSeqNum
  | .removeFromHistory _ tid => tid < s.numThreads
  | .freeSquashed tid => tid < s.numThreads

structure Config where
  numThreads : Nat
  numRegs : RegClassType → Nat
  numPhysRegs : RegClassType → Nat

/-- The registers are given to the threads in order. mirrors cpu/o3/cpu.cc:226-239 -/
def Config.rename (cfg : Config) : Rename where
  numRegs := cfg.numRegs
  freeLists c :=
    if c ∈ renameClasses then (List.range (cfg.numPhysRegs c - cfg.numThreads * cfg.numRegs c)).map fun i =>
      ⟨c, cfg.numThreads * cfg.numRegs c + i⟩
    else []
  renameMap tid r := ⟨r.regClass, tid * cfg.numRegs r.regClass + r.index⟩
  historyBuffer _ := []
  freeingInProgress _ := []
  numPinnedWrites _ := 0

def Config.start (cfg : Config) : Sys where
  rename := cfg.rename
  numThreads := cfg.numThreads
  numPhysRegs := cfg.numPhysRegs
  initial := cfg.rename.mapping

/-- There are registers for all threads. mirrors cpu/o3/cpu.cc:195-206 -/
def Config.Enough (cfg : Config) : Prop :=
  ∀ c ∈ renameClasses, cfg.numThreads * cfg.numRegs c ≤ cfg.numPhysRegs c

def machine : Machine Sys Ev Fault where
  init s := ∃ cfg : Config, cfg.Enough ∧ s = cfg.start
  enabled := enabled
  step := step

/-- The map of a thread just after the youngest instruction up to `n` was renamed. -/
def Sys.mapAt (s : Sys) (tid n : Nat) : RegId → PhysRegId :=
  (((s.live tid).find? (·.seqNum ≤ n)).map (·.mapAfter)).getD (s.initial tid)

/-! ## One rename -/

def change (e : RenameHistory) : Change RegId PhysRegId := ⟨e.archReg, e.newPhysReg, e.prevPhysReg⟩

/-- Registers are where their class says, and none is pinned. -/
structure Typed (r : Rename) : Prop where
  free : ∀ c, ∀ p ∈ r.freeLists c, p.regClass = c
  mapping : ∀ tid a, (r.mapping tid a).regClass = a.regClass
  unpinned : ∀ p, r.numPinnedWrites p = 0

variable {r r' : Rename} {tid seqNum n : Nat} {a : RegId} {s s' : Sys} {l : List Instr}
  {P : List RenameHistory → Rename → Prop} {t : Nat} {b : RegId → PhysRegId}

theorem mapping_of_renameable (h : a.isRenameable = true) :
    r.mapping tid a = r.renameMap tid a := by
  obtain ⟨c, i⟩ := a
  cases c <;> first | rfl | simp [RegId.isRenameable] at h

/-- What `renameDestReg` does. -/
inductive Renamed (tid seqNum : Nat) (a : RegId) (r : Rename) : Rename → Prop
  | fixed (h : a.isRenameable = false) : Renamed tid seqNum a r
      (r.setHistory tid (⟨seqNum, a, r.mapping tid a, r.mapping tid a⟩ :: r.historyBuffer tid))
  | taken {x : PhysRegId} {rest : List PhysRegId} (h : a.isRenameable = true)
      (hfree : r.freeLists a.regClass = x :: rest) : Renamed tid seqNum a r
      { r.setMap tid a x with
        freeLists := update r.freeLists a.regClass rest
        numPinnedWrites := update r.numPinnedWrites x 0
        historyBuffer := update r.historyBuffer tid
          (⟨seqNum, a, x, r.mapping tid a⟩ :: r.historyBuffer tid) }

theorem renameDestReg_cases {d : DestReg} (tid seqNum : Nat) (ht : Typed r)
    (hp : d.numPinnedWrites = 0) :
    (∃ r', renameDestReg tid seqNum r d = .ok r' ∧ Renamed tid seqNum d.reg r r') ∨
      (d.reg.isRenameable = true ∧ r.freeLists d.reg.regClass = [] ∧
        renameDestReg tid seqNum r d = .error (.assertion .freeRegsNonempty)) := by
  unfold renameDestReg Rename.rename
  cases hren : d.reg.isRenameable with
  | false =>
    refine .inl ⟨_, ?_, .fixed hren⟩
    simp [lookup, hren]
  | true =>
    have hclass : d.reg.regClass ≠ .invalid := by
      intro hc
      simp [RegId.isRenameable, hc] at hren
    have hpin : ¬ 0 < r.numPinnedWrites (r.renameMap tid d.reg) := by
      rw [ht.unpinned]
      decide
    simp only [simpleRename, if_neg hclass, if_neg hpin]
    unfold getReg
    cases hfree : r.freeLists d.reg.regClass with
    | nil => exact .inr ⟨trivial, rfl, rfl⟩
    | cons x rest =>
      refine .inl ⟨_, rfl, ?_⟩
      have htaken : Renamed tid seqNum d.reg r _ := .taken hren hfree
      rw [mapping_of_renameable hren] at htaken
      rw [hp]
      exact htaken

/-- A rename is a change of the map, and is recorded; the other threads are left alone. -/
structure Records (tid : Nat) (e : RenameHistory) (r r' : Rename) : Prop where
  prev : e.prevPhysReg = r.mapping tid e.archReg
  fixed : e.archReg.isRenameable = false → e.newPhysReg = e.prevPhysReg
  mapping : r'.mapping tid = (change e).apply (r.mapping tid)
  history : r'.historyBuffer tid = e :: r.historyBuffer tid
  others : ∀ t, t ≠ tid → r'.mapping t = r.mapping t ∧ r'.historyBuffer t = r.historyBuffer t
  numRegs : r'.numRegs = r.numRegs

theorem mapping_setMap (h : a.isRenameable = true) (x : PhysRegId) :
    (r.setMap tid a x).mapping tid = update (r.mapping tid) a x := by
  funext a'
  by_cases ha : a' = a
  · subst ha
    rw [mapping_of_renameable h]
    simp [setMap]
  · unfold Rename.mapping
    simp [setMap, update_of_ne ha]

theorem mapping_setMap_of_ne (h : t ≠ tid) (x : PhysRegId) :
    (r.setMap tid a x).mapping t = r.mapping t := by
  funext a'
  unfold Rename.mapping
  simp [setMap, update_of_ne h]

theorem class_setMap (h : a.isRenameable = true) {x : PhysRegId} (hx : x.regClass = a.regClass)
    (hm : ∀ t a, (r.mapping t a).regClass = a.regClass) (t : Nat) (a' : RegId) :
    ((r.setMap tid a x).mapping t a').regClass = a'.regClass := by
  by_cases htid : t = tid
  · subst htid
    rw [mapping_setMap h]
    by_cases ha : a' = a
    · subst ha
      rw [update_self, hx]
    · rw [update_of_ne ha]
      exact hm t a'
  · rw [mapping_setMap_of_ne htid]
    exact hm t a'

theorem mapping_congr (h : r'.renameMap = r.renameMap) : r'.mapping = r.mapping := by
  funext t a
  unfold Rename.mapping
  rw [h]

theorem Renamed.records (h : Renamed tid seqNum a r r') :
    ∃ e : RenameHistory, e.instSeqNum = seqNum ∧ e.archReg = a ∧ Records tid e r r' := by
  cases h with
  | fixed h =>
    refine ⟨⟨seqNum, a, r.mapping tid a, r.mapping tid a⟩, rfl, rfl, rfl, fun _ => rfl, ?_, ?_, ?_, rfl⟩
    · exact (update_eq_self a _).symm
    · exact update_self ..
    · intro t ht
      exact ⟨congrFun (mapping_congr rfl) t, update_of_ne ht ..⟩
  | @taken x rest h hfree =>
    refine ⟨⟨seqNum, a, x, r.mapping tid a⟩, rfl, rfl, rfl, ?_, ?_, ?_, ?_, rfl⟩
    · intro hf
      rw [h] at hf
      cases hf
    · exact mapping_setMap h x
    · exact update_self ..
    · intro t ht
      exact ⟨mapping_setMap_of_ne ht x, update_of_ne ht ..⟩

theorem Renamed.typed (h : Renamed tid seqNum a r r') (ht : Typed r) : Typed r' := by
  cases h with
  | fixed h => exact ⟨ht.free, by rw [mapping_congr rfl]; exact ht.mapping, ht.unpinned⟩
  | @taken x rest h hfree =>
    have hx : x.regClass = a.regClass := ht.free a.regClass x (by rw [hfree]; exact mem_cons_self)
    refine ⟨?_, class_setMap h hx ht.mapping, ?_⟩
    · intro c p hp
      by_cases hc : c = a.regClass
      · subst hc
        simp only [update_self] at hp
        exact ht.free _ p (by rw [hfree]; exact mem_cons_of_mem _ hp)
      · simp only [update_of_ne hc] at hp
        exact ht.free c p hp
    · intro p
      by_cases hp : p = x
      · subst hp
        exact update_self ..
      · exact (update_of_ne hp ..).trans (ht.unpinned p)

/-! ## The renames of an instruction -/

/-- An entry that can be undone. -/
structure Fit (numRegs : RegClassType → Nat) (e : RenameHistory) : Prop where
  range : InRange numRegs e.archReg
  prevClass : e.prevPhysReg.regClass = e.archReg.regClass
  fixed : e.archReg.isRenameable = false → e.newPhysReg = e.prevPhysReg

/-- The entries of an instruction are put on the history, and lead from the old map to the
new one. -/
structure Logs (tid seqNum : Nat) (es : List RenameHistory) (r r' : Rename) : Prop where
  recorded : Recorded (r.mapping tid) (es.map change)
  mapping : r'.mapping tid = state (r.mapping tid) (es.map change)
  history : r'.historyBuffer tid = es ++ r.historyBuffer tid
  seqNum : ∀ e ∈ es, e.instSeqNum = seqNum
  fit : ∀ e ∈ es, Fit r.numRegs e
  others : ∀ t, t ≠ tid → r'.mapping t = r.mapping t ∧ r'.historyBuffer t = r.historyBuffer t
  numRegs : r'.numRegs = r.numRegs

theorem Logs.refl (tid seqNum : Nat) (r : Rename) : Logs tid seqNum [] r r :=
  ⟨trivial, rfl, rfl, fun _ h => (nomatch h), fun _ h => (nomatch h), fun _ _ => ⟨rfl, rfl⟩, rfl⟩

variable {e : RenameHistory}

theorem Records.logs {r₁ r₂ : Rename} {es : List RenameHistory}
    (h : Records tid e r r₁) (hseq : e.instSeqNum = seqNum) (hf : Fit r.numRegs e)
    (hl : Logs tid seqNum es r₁ r₂) : Logs tid seqNum (es ++ [e]) r r₂ where
  recorded := by
    have hone : Recorded (r.mapping tid) [change e] := ⟨h.prev, trivial⟩
    rw [map_append]
    have hmap : r₁.mapping tid = state (r.mapping tid) ([e].map change) := h.mapping
    have hrec := hl.recorded
    rw [hmap] at hrec
    exact hrec.append hone
  mapping := by
    rw [hl.mapping, h.mapping, map_append, state_append]
    rfl
  history := by rw [hl.history, h.history, append_assoc, singleton_append]
  seqNum := forall_mem_append.2 ⟨hl.seqNum, forall_mem_singleton.2 hseq⟩
  fit := forall_mem_append.2 ⟨h.numRegs ▸ hl.fit, forall_mem_singleton.2 hf⟩
  others := fun t ht => ⟨(hl.others t ht).1.trans (h.others t ht).1, (hl.others t ht).2.trans (h.others t ht).2⟩
  numRegs := hl.numRegs.trans h.numRegs

theorem renameDestRegs_logs {dests : List DestReg} (ht : Typed r)
    (hd : ∀ d ∈ dests, InRange r.numRegs d.reg ∧ d.numPinnedWrites = 0)
    (h : dests.foldlM (renameDestReg tid seqNum) r = .ok r') :
    Typed r' ∧ ∃ es, Logs tid seqNum es r r' := by
  induction dests generalizing r with
  | nil =>
    cases h
    exact ⟨ht, [], .refl tid seqNum _⟩
  | cons d dests ih =>
    obtain ⟨r₁, hrun, h⟩ := bind_eq_ok.1 h
    obtain ⟨hrange, hpin⟩ := hd d mem_cons_self
    rcases renameDestReg_cases tid seqNum ht hpin with ⟨r₁', hok, hren⟩ | ⟨-, -, herr⟩
    · rw [hok] at hrun
      cases hrun
      obtain ⟨e, hseq, ha, hrec⟩ := hren.records
      obtain ⟨ht', es, hl⟩ := ih (hren.typed ht)
        (fun d' hd' => hrec.numRegs ▸ hd d' (mem_cons_of_mem _ hd')) h
      have hclass : e.prevPhysReg.regClass = e.archReg.regClass := by rw [hrec.prev, ht.mapping]
      exact ⟨ht', es ++ [e], hrec.logs hseq ⟨ha ▸ hrange, hclass, hrec.fixed⟩ hl⟩
    · rw [herr] at hrun
      cases hrun

/-! ## Squash and commit -/

inductive Undone (tid : Nat) (e : RenameHistory) (r : Rename) : Rename → Prop
  | same (h : e.newPhysReg = e.prevPhysReg) : Undone tid e r r
  | changed (h : e.newPhysReg ≠ e.prevPhysReg) (hren : e.archReg.isRenameable = true) : Undone tid e r
      { r.setMap tid e.archReg e.prevPhysReg with
        freeingInProgress :=
          update r.freeingInProgress tid (r.freeingInProgress tid ++ [e.newPhysReg]) }

theorem undoEntry_eq (tid : Nat) (hf : Fit r.numRegs e) :
    ∃ r', r.undoEntry tid e = .ok r' ∧ Undone tid e r r' := by
  unfold undoEntry
  by_cases hch : e.newPhysReg ≠ e.prevPhysReg
  · have hren : e.archReg.isRenameable = true := by
      by_contra hno
      exact hch (hf.fixed (Bool.eq_false_iff.2 hno))
    have hrange := hf.range hren
    have hset : r.setEntry tid e.archReg e.prevPhysReg = .ok (r.setMap tid e.archReg e.prevPhysReg) := by
      unfold setEntry
      rw [if_neg (not_not.2 hf.prevClass), hren, if_neg (by decide), if_neg (by omega)]
    simp only [if_pos hch, hset, ok_bind]
    exact ⟨_, rfl, .changed hch hren⟩
  · rw [if_neg hch]
    exact ⟨r, rfl, .same (not_not.1 hch)⟩

structure Kept (tid : Nat) (r r' : Rename) : Prop where
  others : ∀ t, t ≠ tid → r'.mapping t = r.mapping t
  history : r'.historyBuffer = r.historyBuffer
  numRegs : r'.numRegs = r.numRegs

theorem Undone.kept (h : Undone tid e r r') : Kept tid r r' := by
  cases h with
  | same h => exact ⟨fun _ _ => rfl, rfl, rfl⟩
  | changed h hren => exact ⟨fun t ht => mapping_setMap_of_ne ht _, rfl, rfl⟩

theorem Undone.mapping (h : Undone tid e r r')
    (hcur : r.mapping tid e.archReg = e.newPhysReg) :
    r'.mapping tid = (change e).undo (r.mapping tid) := by
  cases h with
  | same h =>
    refine (update_eq_self_iff.2 ?_).symm
    exact h.symm.trans hcur.symm
  | changed h hren => exact mapping_setMap hren _

theorem Undone.typed (h : Undone tid e r r') (ht : Typed r) (hf : Fit r.numRegs e) : Typed r' := by
  cases h with
  | same h => exact ht
  | changed h hren => exact ⟨ht.free, class_setMap hren hf.prevClass ht.mapping, ht.unpinned⟩

/-- A property of what is left of the history and of the state that every undone entry keeps. -/
theorem squashLoop_rule
    (hstep : ∀ e rest r, n < e.instSeqNum → P (e :: rest) r →
      ∃ r', r.undoEntry tid e = .ok r' ∧ P rest r')
    {history : List RenameHistory} (h : P history r) :
    ∃ r', squashLoop n tid history r =
        .ok (r'.setHistory tid (history.dropWhile (n < ·.instSeqNum))) ∧
      P (history.dropWhile (n < ·.instSeqNum)) r' := by
  induction history generalizing r with
  | nil => exact ⟨r, rfl, h⟩
  | cons e rest ih =>
    by_cases he : n < e.instSeqNum
    · obtain ⟨r₁, hrun, h₁⟩ := hstep e rest r he h
      rw [dropWhile_cons_of_pos (by simpa using he)]
      simp only [squashLoop, if_pos he, hrun, ok_bind]
      exact ih h₁
    · rw [dropWhile_cons_of_neg (by simpa using he)]
      exact ⟨r, by simp only [squashLoop, if_neg he], h⟩

/-- The same for a commit; the history has the oldest entry first. -/
theorem removeLoop_rule (hstep : ∀ e rest r, e.instSeqNum ≤ n → P (e :: rest) r →
      P rest (if e.newPhysReg ≠ e.prevPhysReg then r.addReg e.prevPhysReg else r))
    (history : List RenameHistory) (h : P history r) :
    ∃ r', removeLoop n history r = (history.dropWhile (·.instSeqNum ≤ n), r') ∧
      P (history.dropWhile (·.instSeqNum ≤ n)) r' := by
  induction history generalizing r with
  | nil => exact ⟨r, rfl, h⟩
  | cons e rest ih =>
    by_cases he : e.instSeqNum ≤ n
    · rw [dropWhile_cons_of_pos (by simpa using he), removeLoop, if_pos he]
      exact ih (hstep e rest r he h)
    · rw [dropWhile_cons_of_neg (by simpa using he), removeLoop, if_neg he]
      exact ⟨r, rfl, h⟩

/-! ## The log of a thread -/

/-- The entries of some instructions, youngest first. -/
def entriesOf (l : List Instr) : List RenameHistory := l.flatMap (·.entries)

def changes (l : List Instr) : List (Change RegId PhysRegId) := (entriesOf l).map change

theorem changes_append (l l' : List Instr) : changes (l ++ l') = changes l ++ changes l' := by
  simp [changes, entriesOf]

/-- Every map that was noted is the one its instructions lead to. -/
def Snapshots (b : RegId → PhysRegId) : List Instr → Prop
  | [] => True
  | i :: l => i.mapAfter = state b (changes (i :: l)) ∧ Snapshots b l

theorem Snapshots.of_append {l' : List Instr} (h : Snapshots b (l ++ l')) : Snapshots b l' := by
  induction l with
  | nil => exact h
  | cons i l ih => exact ih h.2

def Decreasing (l : List Instr) : Prop := l.Pairwise fun i j => j.seqNum < i.seqNum

theorem Decreasing.split (h : Decreasing l) (n : Nat) :
    l = l.filter (n < ·.seqNum) ++ l.filter (·.seqNum ≤ n) := by
  have hcut : l.Pairwise fun i j => decide (n < j.seqNum) = true → decide (n < i.seqNum) = true :=
    h.imp fun hlt hj => decide_eq_true ((of_decide_eq_true hj).trans hlt)
  have hdrop := dropWhile_eq_filter hcut
  simp only [← decide_not, not_lt] at hdrop
  rw [← takeWhile_eq_filter hcut, ← hdrop, takeWhile_append_dropWhile]

/-- What is dropped are the entries that meet the condition, if these come first. -/
theorem dropWhile_split {p : RenameHistory → Bool} {l l' : List RenameHistory}
    (h : ∀ e ∈ l, p e = true) (h' : ∀ e ∈ l', ¬ p e = true) : (l ++ l').dropWhile p = l' := by
  rw [dropWhile_append_of_pos h]
  cases l' with
  | nil => rfl
  | cons e l' => exact dropWhile_cons_of_neg (h' e mem_cons_self)

/-- Every entry has the number of its instruction. -/
def Own (l : List Instr) : Prop := ∀ i ∈ l, ∀ e ∈ i.entries, e.instSeqNum = i.seqNum

theorem Own.of_filter {p : Nat → Bool} (h : Own l)
    (he : e ∈ entriesOf (l.filter fun i => p i.seqNum)) :
    p e.instSeqNum = true := by
  obtain ⟨i, hi, he⟩ := mem_flatMap.1 he
  obtain ⟨hi, hp⟩ := mem_filter.1 hi
  rw [h i hi e he, hp]

structure Thread (s : Sys) (t : Nat) : Prop where
  history : s.rename.historyBuffer t = entriesOf (s.pending t)
  recorded : Recorded (s.initial t) (changes (s.live t))
  mapping : s.rename.mapping t = state (s.initial t) (changes (s.live t))
  decreasing : Decreasing (s.live t)
  own : Own (s.live t)
  fit : ∀ e ∈ s.rename.historyBuffer t, Fit s.rename.numRegs e
  snapshots : Snapshots (s.initial t) (s.live t)

structure Inv (s : Sys) : Prop where
  typed : Typed s.rename
  thread : ∀ t, Thread s t

theorem Thread.history_split (h : Thread s tid) (n : Nat) : ∃ young old,
    young = entriesOf ((s.pending tid).filter (n < ·.seqNum)) ∧
    old = entriesOf ((s.pending tid).filter (·.seqNum ≤ n)) ∧
    s.rename.historyBuffer tid = young ++ old ∧ (∀ e ∈ young, n < e.instSeqNum) ∧
    ∀ e ∈ old, e.instSeqNum ≤ n := by
  have hdec : Decreasing (s.pending tid) := (pairwise_append.1 h.decreasing).1
  have hown : Own (s.pending tid) := fun i hi => h.own i (mem_append_left _ hi)
  refine ⟨_, _, rfl, rfl, ?_, fun e he => ?_, fun e he => ?_⟩
  · rw [h.history]
    conv_lhs => rw [hdec.split n]
    exact flatMap_append
  · simpa using hown.of_filter (p := fun k => n < k) he
  · simpa using hown.of_filter (p := fun k => k ≤ n) he

theorem Thread.of_live (h : Thread s t) (hmap : s'.rename.mapping t = s.rename.mapping t)
    (hinit : s'.initial t = s.initial t) (hlive : s'.live t = s.live t)
    (hhist : s'.rename.historyBuffer t = entriesOf (s'.pending t))
    (hfit : ∀ e ∈ s'.rename.historyBuffer t, Fit s'.rename.numRegs e) : Thread s' t := by
  obtain ⟨-, hrec, hstate, hdec, hown, -, hsnap⟩ := h
  rw [← hlive] at hrec hstate hdec hown hsnap
  rw [← hinit] at hrec hstate hsnap
  exact ⟨hhist, hrec, hmap.trans hstate, hdec, hown, hfit, hsnap⟩

theorem Thread.congr (h : Thread s t) (hhist : s'.rename.historyBuffer t = s.rename.historyBuffer t)
    (hmap : s'.rename.mapping t = s.rename.mapping t) (hnum : s'.rename.numRegs = s.rename.numRegs)
    (hinit : s'.initial t = s.initial t) (hpend : s'.pending t = s.pending t)
    (hdone : s'.done t = s.done t) :
    Thread s' t := by
  refine h.of_live hmap hinit ?_ ?_ ?_
  · rw [Sys.live, hpend, hdone, Sys.live]
  · rw [hhist, hpend, h.history]
  · rw [hhist, hnum]
    exact h.fit

theorem added_append (es old : List RenameHistory) : added (es ++ old) old = es := by
  simp [added]

/-! ## The steps -/

theorem Inv.renameDestRegs {inst : DynInst} (h : Inv s)
    (hen : enabled s (.renameDestRegs inst tid)) (hs : step s (.renameDestRegs inst tid) = .ok s') :
    Inv s' := by
  obtain ⟨-, hdest, hseq⟩ := hen
  obtain ⟨r, hrun, hs⟩ := bind_eq_ok.1 hs
  obtain ⟨ht, es, hl⟩ := renameDestRegs_logs h.typed hdest hrun
  cases hs
  refine ⟨ht, fun t => ?_⟩
  by_cases htid : t = tid
  · subst htid
    have hth := h.thread t
    have hadd : added (r.historyBuffer t) (s.rename.historyBuffer t) = es := by rw [hl.history, added_append]
    have hlive : ∀ r', Sys.live { s with
        rename := r'
        pending := update s.pending t (⟨inst.seqNum, es, r.mapping t⟩ :: s.pending t) } t =
        ⟨inst.seqNum, es, r.mapping t⟩ :: s.live t := by
      simp [Sys.live]
    have hchanges : changes (⟨inst.seqNum, es, r.mapping t⟩ :: s.live t) = es.map change ++ changes (s.live t) := by
      simp [changes, entriesOf]
    have hmap : r.mapping t = state (s.initial t) (es.map change ++ changes (s.live t)) := by
      rw [hl.mapping, state_append, hth.mapping]
    rw [hadd]
    constructor
    · simp only [update_self, hl.history, hth.history]
      rfl
    · rw [hlive, hchanges]
      refine .append ?_ hth.recorded
      rw [← hth.mapping]
      exact hl.recorded
    · rw [hlive, hchanges]
      exact hmap
    · rw [hlive]
      exact pairwise_cons.2 ⟨hseq, hth.decreasing⟩
    · rw [hlive]
      exact forall_mem_cons.2 ⟨hl.seqNum, hth.own⟩
    · simp only [hl.history, hl.numRegs]
      exact forall_mem_append.2 ⟨hl.fit, hth.fit⟩
    · rw [hlive]
      exact ⟨by rw [hchanges]; exact hmap, hth.snapshots⟩
  · exact (h.thread t).congr (hl.others t htid).2 (hl.others t htid).1 hl.numRegs rfl
      (update_of_ne htid ..) rfl

/-- While thread `tid` is squashed: `left` is what is left of its history, `log` the rest of
its log. -/
structure Squashing (tid : Nat) (b : RegId → PhysRegId) (log : List (Change RegId PhysRegId))
    (r₀ : Rename) (left : List RenameHistory) (r : Rename) : Prop extends Kept tid r₀ r where
  typed : Typed r
  recorded : Recorded b (left.map change ++ log)
  mapping : r.mapping tid = state b (left.map change ++ log)
  fit : ∀ e ∈ left, Fit r.numRegs e

theorem Squashing.undo {log : List (Change RegId PhysRegId)} {r₀ : Rename}
    {rest : List RenameHistory} (h : Squashing tid b log r₀ (e :: rest) r) :
    ∃ r', r.undoEntry tid e = .ok r' ∧ Undone tid e r r' ∧ Squashing tid b log r₀ rest r' := by
  have hf := h.fit e mem_cons_self
  obtain ⟨r', hrun, hu⟩ := undoEntry_eq tid hf
  have hk := hu.kept
  have hcur : r.mapping tid e.archReg = e.newPhysReg := by
    rw [h.mapping]
    exact state_key
  refine ⟨r', hrun, hu, ⟨?_, hk.history.trans h.history, hk.numRegs.trans h.numRegs⟩, hu.typed h.typed hf, h.recorded.2,
    ?_, ?_⟩
  · intro t ht
    rw [hk.others t ht, h.others t ht]
  · rw [hu.mapping hcur, h.mapping]
    exact undo_state h.recorded
  · rw [hk.numRegs]
    exact fun e' he' => h.fit e' (mem_cons_of_mem _ he')

theorem Inv.squashing (h : Inv s) (tid : Nat) :
    Squashing tid (s.initial tid) (changes (s.done tid)) s.rename
      (s.rename.historyBuffer tid) s.rename := by
  have hth := h.thread tid
  have hlog : (s.rename.historyBuffer tid).map change ++ changes (s.done tid) = changes (s.live tid) := by
    rw [hth.history, Sys.live, changes_append]
    rfl
  refine ⟨⟨fun _ _ => rfl, rfl, rfl⟩, h.typed, ?_, ?_, hth.fit⟩
  · rw [hlog]
    exact hth.recorded
  · rw [hlog]
    exact hth.mapping

theorem Inv.doSquash_spec (h : Inv s) (n tid : Nat) :
    ∃ r, s.rename.doSquash n tid = .ok
      (r.setHistory tid (entriesOf ((s.pending tid).filter (·.seqNum ≤ n)))) ∧
      Squashing tid (s.initial tid) (changes (s.done tid)) s.rename
        (entriesOf ((s.pending tid).filter (·.seqNum ≤ n))) r := by
  obtain ⟨young, old, -, hold, heq, hyoung, hle⟩ := (h.thread tid).history_split n
  obtain ⟨r, hloop, hsq⟩ := squashLoop_rule
    (fun e rest r _ hP => by
      obtain ⟨r', hrun, -, hP'⟩ := hP.undo
      exact ⟨r', hrun, hP'⟩) (h.squashing tid)
  have hdrop : (s.rename.historyBuffer tid).dropWhile (n < ·.instSeqNum) = old := by
    rw [heq]
    exact dropWhile_split (by simpa using hyoung) (by simpa using hle)
  rw [hdrop, hold] at hloop hsq
  exact ⟨r, hloop, hsq⟩

theorem Thread.live_split (h : Thread s tid) (n : Nat) :
    s.live tid = (s.pending tid).filter (n < ·.seqNum) ++
      ((s.pending tid).filter (·.seqNum ≤ n) ++ s.done tid) := by
  have hdec : Decreasing (s.pending tid) := (pairwise_append.1 h.decreasing).1
  rw [← append_assoc, ← hdec.split n]
  rfl

theorem Inv.doSquash (h : Inv s) (hs : step s (.doSquash n tid) = .ok s') : Inv s' := by
  obtain ⟨r, hrun, hsq⟩ := h.doSquash_spec n tid
  obtain ⟨r', hrun', hs⟩ := bind_eq_ok.1 hs
  rw [hrun] at hrun'
  cases hrun'
  cases hs
  refine ⟨{ hsq.typed with }, fun t => ?_⟩
  by_cases htid : t = tid
  · subst htid
    obtain ⟨-, -, -, hdec, hown, -, hsnap⟩ := h.thread t
    rw [(h.thread t).live_split n] at hdec hown hsnap
    have hlive : ∀ r', Sys.live { s with
        rename := r'
        pending := update s.pending t ((s.pending t).filter (·.seqNum ≤ n)) } t =
        (s.pending t).filter (·.seqNum ≤ n) ++ s.done t := by
      simp [Sys.live]
    have hchanges : (entriesOf ((s.pending t).filter (·.seqNum ≤ n))).map change ++ changes (s.done t) =
        changes ((s.pending t).filter (·.seqNum ≤ n) ++ s.done t) := (changes_append _ _).symm
    constructor
    · simp [setHistory]
    · rw [hlive, ← hchanges]
      exact hsq.recorded
    · rw [hlive, ← hchanges]
      exact hsq.mapping
    · rw [hlive]
      exact (pairwise_append.1 hdec).2.1
    · rw [hlive]
      exact fun i hi => hown i (mem_append_right _ hi)
    · simp only [setHistory, update_self]
      exact hsq.fit
    · rw [hlive]
      exact hsnap.of_append
  · refine (h.thread t).congr ?_ ?_ hsq.numRegs rfl (update_of_ne htid ..) rfl
    · exact (update_of_ne htid ..).trans (congrFun hsq.history t)
    · exact hsq.others t htid

theorem free_addReg (h : ∀ c, ∀ p ∈ r.freeLists c, p.regClass = c) (x : PhysRegId) :
    ∀ c, ∀ p ∈ (r.addReg x).freeLists c, p.regClass = c := by
  intro c p hp
  by_cases hc : c = x.regClass
  · subst hc
    simp only [addReg, update_self] at hp
    exact forall_mem_append.2 ⟨h _, forall_mem_singleton.2 rfl⟩ p hp
  · simp only [addReg, update_of_ne hc] at hp
    exact h c p hp

/-- Registers were freed, and nothing else happened. -/
structure Freed (r r' : Rename) : Prop where
  free : (∀ c, ∀ p ∈ r.freeLists c, p.regClass = c) → ∀ c, ∀ p ∈ r'.freeLists c, p.regClass = c
  renameMap : r'.renameMap = r.renameMap
  numRegs : r'.numRegs = r.numRegs
  history : r'.historyBuffer = r.historyBuffer
  unpinned : r'.numPinnedWrites = r.numPinnedWrites

theorem Freed.refl (r : Rename) : Freed r r := ⟨id, rfl, rfl, rfl, rfl⟩

theorem Freed.addReg (h : Freed r r') (x : PhysRegId) : Freed r (r'.addReg x) :=
  { h with free := fun hr => free_addReg (h.free hr) x }

theorem Freed.typed (h : Freed r r') (ht : Typed r) : Typed r' :=
  ⟨h.free ht.free, by rw [mapping_congr h.renameMap]; exact ht.mapping, by rw [h.unpinned]; exact ht.unpinned⟩

theorem Inv.removeFromHistory_spec (h : Inv s) (n tid : Nat) :
    Typed (s.rename.removeFromHistory n tid) ∧
      (s.rename.removeFromHistory n tid).renameMap = s.rename.renameMap ∧
      (s.rename.removeFromHistory n tid).numRegs = s.rename.numRegs ∧
      (s.rename.removeFromHistory n tid).historyBuffer =
        update s.rename.historyBuffer tid (entriesOf ((s.pending tid).filter (n < ·.seqNum))) := by
  obtain ⟨young, old, hnew, -, heq, hlt, hold⟩ := (h.thread tid).history_split n
  obtain ⟨r, hloop, hfreed⟩ := removeLoop_rule (n := n) (P := fun _ => Freed s.rename)
    (fun e rest r _ hP => by
      split
      · exact hP.addReg e.prevPhysReg
      · exact hP)
    (s.rename.historyBuffer tid).reverse (.refl _)
  have hdrop : (s.rename.historyBuffer tid).reverse.dropWhile (·.instSeqNum ≤ n) = young.reverse := by
    rw [heq, reverse_append]
    exact dropWhile_split (by simpa using hold) (by simpa using hlt)
  have hres : s.rename.removeFromHistory n tid = r.setHistory tid young := by
    simp only [Rename.removeFromHistory, hloop, hdrop, reverse_reverse]
  rw [hres, ← hnew, ← hfreed.history]
  exact ⟨{ hfreed.typed h.typed with }, hfreed.renameMap, hfreed.numRegs, rfl⟩

theorem Inv.removeFromHistory (h : Inv s) (hs : step s (.removeFromHistory n tid) = .ok s') :
    Inv s' := by
  obtain ⟨htyped, hmap, hnum, hhist⟩ := h.removeFromHistory_spec n tid
  cases hs
  refine ⟨htyped, fun t => ?_⟩
  by_cases htid : t = tid
  · subst htid
    have hth := h.thread t
    refine hth.of_live (congrFun (mapping_congr hmap) t) rfl ?_ ?_ ?_
    · rw [hth.live_split n]
      simp [Sys.live]
    · simp only [hhist, update_self]
    · simp only [hhist, update_self, hnum]
      intro e he
      refine hth.fit e ?_
      rw [hth.history]
      obtain ⟨i, hi, he⟩ := mem_flatMap.1 he
      exact mem_flatMap.2 ⟨i, mem_of_mem_filter hi, he⟩
  · refine (h.thread t).congr ?_ (congrFun (mapping_congr hmap) t) hnum rfl (update_of_ne htid ..)
      (update_of_ne htid ..)
    rw [hhist]
    exact update_of_ne htid ..

theorem Freed.foldl (h : Freed r r') (l : List PhysRegId) : Freed r (l.foldl Rename.addReg r') := by
  induction l generalizing r' with
  | nil => exact h
  | cons x l ih => exact ih (h.addReg x)

theorem Inv.freeSquashed (h : Inv s) (hs : step s (.freeSquashed tid) = .ok s') : Inv s' := by
  have hf := (Freed.refl s.rename).foldl (s.rename.freeingInProgress tid)
  cases hs
  have hmapping : (s.rename.freeSquashed tid).mapping = s.rename.mapping := mapping_congr hf.renameMap
  refine ⟨{ hf.typed h.typed with }, fun t => ?_⟩
  exact (h.thread t).congr (congrFun hf.history t) (congrFun hmapping t) hf.numRegs rfl rfl rfl

theorem Inv.step {e : Ev} (h : Inv s) (hen : enabled s e) (hs : step s e = .ok s') : Inv s' := by
  cases e with
  | renameDestRegs inst tid => exact h.renameDestRegs hen hs
  | doSquash n tid => exact h.doSquash hs
  | removeFromHistory n tid => exact h.removeFromHistory hs
  | freeSquashed tid => exact h.freeSquashed hs

theorem Inv.init (h : machine.init s) : Inv s := by
  obtain ⟨cfg, -, rfl⟩ := h
  refine ⟨⟨?_, ?_, fun _ => rfl⟩, fun t => ⟨rfl, trivial, rfl, .nil, nofun, fun e he => (nomatch he),
    trivial⟩⟩
  · intro c p hp
    simp only [Config.start, Config.rename] at hp
    split at hp
    · obtain ⟨i, -, rfl⟩ := mem_map.1 hp
      rfl
    · exact (nomatch hp)
  · rintro tid ⟨c, i⟩
    cases c <;> rfl

theorem reachable_inv (hr : machine.lts.Reachable (.ok s)) : Inv s :=
  Machine.invariant (fun _ => .init) (fun _ _ _ h hen _ hs => h.step hen hs) (Machine.unguarded hr)

/-- The youngest instruction up to `n` is the first of those that a squash to `n` leaves. -/
theorem Inv.mapAt (h : Inv s) (hdone : ∀ i ∈ s.done tid, i.seqNum ≤ n) :
    s.mapAt tid n = state (s.initial tid)
      (changes ((s.pending tid).filter (·.seqNum ≤ n) ++ s.done tid)) := by
  have hth := h.thread tid
  have hsplit := hth.live_split n
  have hsnap := hth.snapshots
  rw [hsplit] at hsnap
  have hsnap := hsnap.of_append
  have hle : ∀ i ∈ (s.pending tid).filter (·.seqNum ≤ n) ++ s.done tid, i.seqNum ≤ n :=
    forall_mem_append.2 ⟨fun i hi => by simpa using (mem_filter.1 hi).2, hdone⟩
  have hnone : ((s.pending tid).filter (n < ·.seqNum)).find? (·.seqNum ≤ n) = none := by
    rw [find?_eq_none]
    intro i hi
    have hlt : n < i.seqNum := by simpa using (mem_filter.1 hi).2
    simpa using hlt
  rw [Sys.mapAt, hsplit, find?_append, hnone, Option.none_or]
  cases hl : (s.pending tid).filter (·.seqNum ≤ n) ++ s.done tid with
  | nil => rfl
  | cons i l =>
    rw [hl] at hsnap hle
    rw [find?_cons_of_pos (by simpa using hle i mem_cons_self)]
    exact hsnap.1

/-- **Restoration.** In every state that a run reaches, a squash of thread `t` to `n`
succeeds. After it `t` has the map it had just after its youngest instruction up to `n` was
renamed, the maps of the others are as before, and its history is that of its pending
instructions up to `n`. -/
theorem squash_restores {s : Sys} {n t : Nat} (hr : machine.lts.Reachable (.ok s))
    (hen : machine.enabled s (.doSquash n t)) :
    ∃ s', machine.step s (.doSquash n t) = .ok s' ∧ s'.rename.mapping t = s.mapAt t n ∧
      (∀ t', t' ≠ t → s'.rename.mapping t' = s.rename.mapping t') ∧
      s'.rename.historyBuffer t = entriesOf ((s.pending t).filter (·.seqNum ≤ n)) := by
  have h := reachable_inv hr
  obtain ⟨r, hrun, hsq⟩ := h.doSquash_spec n t
  have hmapping : ∀ t', (r.setHistory t (entriesOf ((s.pending t).filter (·.seqNum ≤ n)))).mapping t' = r.mapping t' :=
    congrFun (mapping_congr rfl)
  refine ⟨_, bind_eq_ok.2 ⟨_, hrun, rfl⟩, ?_, ?_, update_self ..⟩
  · rw [hmapping, hsq.mapping, h.mapAt hen.2, changes_append]
    rfl
  · intro t' ht'
    rw [hmapping, hsq.others t' ht']

instance (s : Sys) (e : Ev) : Decidable (enabled s e) := by
  cases e <;> dsimp only [enabled] <;> infer_instance

/-- Two threads with two integer registers each, and eight physical ones. -/
def twoThreads : Config where
  numThreads := 2
  numRegs c := if c = .int then 2 else 0
  numPhysRegs c := if c = .int then 8 else 0

theorem twoThreads_enough : twoThreads.Enough := by
  unfold Config.Enough
  decide

def intReg (i : Nat) : DestReg := { reg := ⟨.int, i⟩ }

/-- Instruction 1 is committed, instructions 2 and 3 rename register 0 again, and 4 is of the other
thread. The squash to 2 undoes 3 only. -/
theorem squash_restores_to_two : ∃ s s', machine.lts.Reachable (.ok s) ∧
    machine.step s (.doSquash 2 0) = .ok s' ∧ s'.rename.mapping 0 = s.mapAt 0 2 ∧
    s.mapAt 0 2 ⟨.int, 0⟩ = ⟨.int, 5⟩ ∧ s.rename.mapping 0 ⟨.int, 0⟩ = ⟨.int, 6⟩ := by
  have hr := Machine.lts_decided (M := machine) (P := enabled) (fun _ _ => id)
    [.renameDestRegs ⟨1, [intReg 0]⟩ 0, .removeFromHistory 1 0, .renameDestRegs ⟨2, [intReg 0]⟩ 0,
      .renameDestRegs ⟨3, [intReg 0]⟩ 0, .renameDestRegs ⟨4, [intReg 1]⟩ 1]
    ⟨twoThreads, twoThreads_enough, rfl⟩ rfl
  obtain ⟨s', hstep, hmap, -⟩ := squash_restores hr (show enabled _ (.doSquash 2 0) from ⟨by decide, by decide⟩)
  exact ⟨_, s', hr, hstep, hmap, rfl, rfl⟩

end Gem5Cxl.L3.Renaming
