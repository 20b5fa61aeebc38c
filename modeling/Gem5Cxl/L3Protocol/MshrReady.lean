import Gem5Cxl.L2Machine.MshrQueue

/-!
# The ready entries of the MSHR queue

A run is any sequence of calls of the cache on the queue and on its allocated
entries, in time. The queue should always offer the entry that is ready first.

* `Offers`: the lists and counters say which entries are allocated, in service
  and ready, and the queue offers a ready entry with the least ready time.
* `Inv`: the ready list is sorted by ready time.
* `offers_earliest`: `Offers` holds in every run whose steps all meet `Meets`.

`Meets` is needed for `delay`. It looks for the entry's new place from the entry
itself on, where the search ends at once, so the entry stays where it is
(`not_earliest`).
-/
namespace Gem5Cxl.L3.MshrReady

open Core L1 L2 L2.Mshrs L2.Mshrs.MshrQueue List

structure State where
  queue : MshrQueue
  tick : Nat := 0

inductive Label
  | allocate (blkAddr blkSize : Nat) (pkt : MshrPacket) (whenReady order : Nat) (allocOnFill : Bool)
  | deallocate (e : Nat)
  | markInService (e : Nat) (pendingModifiedResp : Bool)
  | markPending (e : Nat)
  | delay (e delayTicks : Nat)
  | call (e : Nat) (c : Mshr.Call)
  | tick (t : Nat)

def step (s : State) : Label → Except Fault State
  | .allocate blkAddr blkSize pkt whenReady order fill => do
    let queue ← s.queue.allocate s.tick blkAddr blkSize pkt whenReady order fill
    .ok { s with queue }
  | .deallocate e => do
    let queue ← s.queue.deallocate e
    .ok { s with queue }
  | .markInService e b => do
    let queue ← s.queue.markInService e b
    .ok { s with queue }
  | .markPending e => do
    let queue ← s.queue.markPending e
    .ok { s with queue }
  | .delay e delayTicks => do
    let queue ← s.queue.delay s.tick e delayTicks
    .ok { s with queue }
  | .call e c => do
    let queue ← s.queue.call s.tick e c
    .ok { s with queue }
  | .tick t => .ok { s with tick := t }

/-- The cache calls the entries that are allocated, and promotes deferred targets when the
response has come. Time does not go back. -/
def enabled (s : State) : Label → Prop
  | .allocate _ _ _ whenReady _ _ => whenReady ≤ maxTick
  | .call e c => e ∈ s.queue.allocatedList ∧ (c = .promoteDeferredTargets → s.queue.inService e = true)
  | .tick t => s.tick ≤ t ∧ t ≤ maxTick
  | _ => True

instance (s : State) : DecidablePred (enabled s) := fun c => by
  cases c <;> dsimp only [enabled] <;> infer_instance

def machine : Machine State Label Fault where
  init s := s.tick = 0 ∧ ∃ n, s.queue = .new n
  enabled := enabled
  step := step

/-! ## What is asked -/

def Waiting (q : MshrQueue) (e : Nat) : Prop := e ∈ q.allocatedList ∧ q.inService e = false

/-- The least ready time of the waiting entries, `MaxTick` if there is none. -/
def IsNext (q : MshrQueue) (t : Nat) : Prop :=
  (∀ e, Waiting q e → t ≤ q.readyTime e) ∧
    ((∃ e, Waiting q e ∧ q.readyTime e = t) ∨ (∀ e, ¬ Waiting q e) ∧ t = maxTick)

structure Offers (s : State) : Prop where
  parts : (s.queue.freeList ++ s.queue.allocatedList).Perm (List.range s.queue.numEntries)
  ready : ∀ e, e ∈ s.queue.readyList ↔ Waiting s.queue e
  once : s.queue.readyList.Nodup
  allocated : s.queue.allocated = s.queue.allocatedList.length
  inService : s.queue.numInService = s.queue.allocatedList.countP s.queue.inService
  next : IsNext s.queue s.queue.nextReadyTime
  null : s.queue.getNext s.tick = none ↔ s.tick < s.queue.nextReadyTime
  earliest : ∀ e, s.queue.getNext s.tick = some e →
    Waiting s.queue e ∧ s.queue.readyTime e = s.queue.nextReadyTime

/-- The entries before and behind an entry of the ready list. -/
def ahead (q : MshrQueue) (e : Nat) : List Nat := q.readyList.takeWhile (· ≠ e)

def behind (q : MshrQueue) (e : Nat) : List Nat := (q.readyList.dropWhile (· ≠ e)).tail

/-- A delayed entry is still in order at its place in the ready list, and `MaxTick` is not
reached. -/
def Meets (s : State) : Label → Prop
  | .delay e delayTicks =>
      (∀ i ∈ ahead s.queue e, s.queue.readyTime i ≤ (s.tick + delayTicks) % 2 ^ 64) ∧
      ∀ i ∈ behind s.queue e, (s.tick + delayTicks) % 2 ^ 64 ≤ s.queue.readyTime i
  | .tick t => t < maxTick
  | _ => True

instance (s : State) : DecidablePred (Meets s) := fun c => by
  cases c <;> dsimp only [Meets] <;> infer_instance

/-! ## The ready list -/

def Sorted (q : MshrQueue) (l : List Nat) : Prop :=
  l.Pairwise fun i j => q.readyTime i ≤ q.readyTime j

section Lists

variable {q : MshrQueue} {e : Nat} {m : Mshr} {l : List Nat} {p : Nat → Bool} (i : Nat)

theorem readyTime_set : (q.set e m).readyTime i = if i = e then m.readyTime else q.readyTime i := by
  simp only [readyTime, MshrQueue.set, Function.update_apply]
  split
  · rfl
  · rfl

theorem inService_set : (q.set e m).inService i = if i = e then m.inService else q.inService i := by
  simp only [MshrQueue.inService, MshrQueue.set, Function.update_apply]
  split
  · rfl
  · rfl

theorem Sorted.set (h : Sorted q l) (he : e ∉ l) : Sorted (q.set e m) l := by
  refine h.imp_of_mem fun {i j} hi hj hle => ?_
  rw [readyTime_set, readyTime_set, if_neg (by rintro rfl; exact he hi),
    if_neg (by rintro rfl; exact he hj)]
  exact hle

theorem insertReady_spec (hs : Sorted q l) (hl : ∃ i ∈ l, q.readyTime e < q.readyTime i) :
    ∃ l', q.insertReady e l = .ok l' ∧ l'.Perm (e :: l) ∧ Sorted q l' := by
  induction l with
  | nil => simp at hl
  | cons i is ih =>
    obtain ⟨hi, his⟩ := pairwise_cons.1 hs
    unfold insertReady
    split
    · rename_i hlt
      refine ⟨_, rfl, .refl _, pairwise_cons.2 ⟨?_, hs⟩⟩
      have hle : q.readyTime e ≤ q.readyTime i := le_of_lt hlt
      exact forall_mem_cons.2 ⟨hle, fun j hj => le_trans hle (hi j hj)⟩
    · rename_i hge
      have hrest : ∃ j ∈ is, q.readyTime e < q.readyTime j := by
        obtain ⟨j, hj, hlt⟩ := hl
        rcases mem_cons.1 hj with rfl | hj
        · exact absurd hlt hge
        · exact ⟨j, hj, hlt⟩
      obtain ⟨l', hl', hperm, hsorted⟩ := ih his hrest
      refine ⟨i :: l', by rw [hl', ok_bind], (hperm.cons i).trans (.swap e i is), ?_⟩
      refine pairwise_cons.2 ⟨fun j hj => ?_, hsorted⟩
      rcases mem_cons.1 (hperm.mem_iff.1 hj) with rfl | hj
      · exact Nat.le_of_not_lt hge
      · exact hi j hj

/-- The new entry goes into the list, and the list stays sorted; the panic is not reached. -/
theorem addToReadyList_spec (hs : Sorted q q.readyList) :
    ∃ l, q.addToReadyList e = .ok l ∧ l.Perm (e :: q.readyList) ∧ Sorted q l := by
  have happend : (∀ i ∈ q.readyList, q.readyTime i ≤ q.readyTime e) →
      Sorted q (q.readyList ++ [e]) := by
    intro hle
    exact pairwise_append.2 ⟨hs, pairwise_singleton _ _, by simpa using hle⟩
  unfold addToReadyList
  split
  · rename_i hnone
    refine ⟨_, rfl, perm_append_singleton _ _, happend ?_⟩
    simp [getLast?_eq_none_iff.1 hnone]
  · rename_i back hback
    obtain ⟨init, hinit⟩ := getLast?_eq_some_iff.1 hback
    split
    · rename_i hle
      refine ⟨_, rfl, perm_append_singleton _ _, happend ?_⟩
      rw [hinit] at hs ⊢
      refine forall_mem_append.2 ⟨fun i hi => ?_, forall_mem_singleton.2 hle⟩
      exact le_trans ((pairwise_append.1 hs).2.2 i hi back mem_cons_self) hle
    · rename_i hgt
      exact insertReady_spec hs ⟨back, by simp [hinit], Nat.lt_of_not_le hgt⟩

theorem addToReadyList_yields (he : e ∉ q.readyList) (hi : q.readyList.Nodup)
    (hs : Sorted q q.readyList) :
    Yields (fun l => (l.erase e).Perm (q.readyList.erase e) ∧ e ∈ l ∧ l.Nodup ∧ Sorted q l)
      (q.addToReadyList e) := by
  obtain ⟨l, hl, hperm, hsorted⟩ := addToReadyList_spec hs
  rw [hl, yields_ok, erase_of_not_mem he, hperm.mem_iff, hperm.nodup_iff]
  exact ⟨by simpa using hperm.erase e, mem_cons_self, nodup_cons.2 ⟨he, hi⟩, hsorted⟩

theorem dropWhile_self (he : e ∈ l) : l.dropWhile (· ≠ e) = e :: (l.dropWhile (· ≠ e)).tail := by
  induction l with
  | nil => simp at he
  | cons i is ih =>
    by_cases hie : i = e
    · simp [hie]
    · have hrest := ih ((mem_cons.1 he).resolve_left (Ne.symm hie))
      rwa [dropWhile_cons, if_pos (by simpa using hie)]

theorem countP_split (he : p e = true → e ∈ l) :
    l.countP p = (l.erase e).countP p + if p e then 1 else 0 := by
  by_cases hmem : e ∈ l
  · rw [(perm_cons_erase hmem).countP_eq, countP_cons]
  · rw [erase_of_not_mem hmem, if_neg fun hp => hmem (he hp), add_zero]

theorem erase_yields : Yields (fun l' => e ∈ l ∧ l' = l.erase e) (MshrQueue.erase l e) := by
  simp only [MshrQueue.erase, yields_ite, yields_ok, yields_error, and_true, implies_true]
  exact id

end Lists

/-! ## The invariant -/

structure Inv (q : MshrQueue) : Prop where
  parts : (q.freeList ++ q.allocatedList).Perm (List.range q.numEntries)
  ready : ∀ e, e ∈ q.readyList ↔ Waiting q e
  once : q.readyList.Nodup
  sorted : Sorted q q.readyList
  serving : ∀ e, q.inService e = true → e ∈ q.allocatedList
  allocated : q.allocated = q.allocatedList.length
  inService : q.numInService = q.allocatedList.countP q.inService

section Inv

variable {q q' : MshrQueue} {e tick : Nat} {m : Mshr} {delayTicks : Nat}

theorem Inv.new (n : Nat) : Inv (.new n) where
  parts := by simp [MshrQueue.new]
  ready := by simp [MshrQueue.new, Waiting]
  once := nodup_nil
  sorted := .nil
  serving e h := by cases h
  allocated := rfl
  inService := rfl

section

variable (hi : Inv q)
include hi

theorem Inv.nodup : (q.freeList ++ q.allocatedList).Nodup :=
  hi.parts.nodup_iff.2 nodup_range

theorem Inv.not_ready (hs : q.inService e = true) : e ∉ q.readyList := by
  intro hmem
  rw [((hi.ready e).1 hmem).2] at hs
  cases hs

/-- One entry changes to `m`. The others stay in their lists, and the changed one is counted, and
waits in the ready list, as `m` says. -/
theorem Inv.change (hentries : q'.entries = (q.set e m).entries)
    (hparts : (q'.freeList ++ q'.allocatedList).Perm (List.range q'.numEntries))
    (hothers : (q'.allocatedList.erase e).Perm (q.allocatedList.erase e))
    (hready : (q'.readyList.erase e).Perm (q.readyList.erase e))
    (hself : e ∈ q'.readyList ↔ e ∈ q'.allocatedList ∧ m.inService = false)
    (honce : q'.readyList.Nodup) (hsorted : Sorted (q.set e m) q'.readyList)
    (hserve : m.inService = true → e ∈ q'.allocatedList)
    (hallocated : q'.allocated = q'.allocatedList.length)
    (hnum : q'.numInService =
      q.numInService - (if q.inService e then 1 else 0) + if m.inService then 1 else 0) :
    Inv q' := by
  have hin i : q'.inService i = if i = e then m.inService else q.inService i := by
    rw [MshrQueue.inService, hentries]
    exact inService_set i
  have hmem {l l' : List Nat} (h : (l'.erase e).Perm (l.erase e)) {i : Nat} (hie : i ≠ e) : i ∈ l' ↔ i ∈ l := by
    rw [← mem_erase_of_ne hie, h.mem_iff, mem_erase_of_ne hie]
  refine ⟨hparts, fun i => ?_, honce, hsorted.imp fun {i j} hle => ?_, fun i h => ?_, hallocated, ?_⟩
  · rw [Waiting, hin]
    by_cases hie : i = e
    · rw [if_pos hie, hie, hself]
    · rw [if_neg hie, hmem hready hie, hmem hothers hie, hi.ready i, Waiting]
  · rwa [MshrQueue.readyTime, MshrQueue.readyTime, hentries]
  · rw [hin] at h
    by_cases hie : i = e
    · rw [if_pos hie] at h
      exact hie ▸ hserve h
    · rw [if_neg hie] at h
      exact (hmem hothers hie).2 (hi.serving i h)
  · have hgone : e ∉ q'.allocatedList.erase e := (nodup_append.1 (hparts.nodup_iff.2 nodup_range)).2.1.not_mem_erase
    have hself' : q'.inService e = m.inService := by rw [hin, if_pos rfl]
    have hcount : (q'.allocatedList.erase e).countP q'.inService = (q.allocatedList.erase e).countP q.inService := by
      rw [← hothers.countP_eq]
      refine countP_congr fun i hi => ?_
      rw [hin, if_neg (by rintro rfl; exact hgone hi)]
    have hafter := countP_split (hself' ▸ hserve)
    have hbefore := countP_split (hi.serving e)
    rw [hself'] at hafter
    rw [hnum, hi.inService, hbefore, hafter]
    split <;> split <;> omega

theorem Inv.allocate {blkAddr blkSize whenReady order : Nat} {pkt : MshrPacket} {fill : Bool} :
    Yields Inv (q.allocate tick blkAddr blkSize pkt whenReady order fill) := by
  unfold MshrQueue.allocate
  split
  · exact yields_error
  rename_i e free hfree
  simp only [yields_ite, yields_error, yields_bind, implies_true, true_and]
  intro _ m hm
  have hidle : m.inService = false := by
    refine (?_ : Yields (fun m => m.inService = false) _) m hm
    simp [Mshr.allocate]
  have hparts := hi.parts
  rw [hfree] at hparts
  have hnew : e ∉ q.allocatedList := fun hmem =>
    (nodup_cons.1 (hparts.nodup_iff.2 nodup_range)).1 (mem_append_right _ hmem)
  have hready : e ∉ q.readyList := fun hmem => hnew ((hi.ready e).1 hmem).1
  have hserve : q.inService e = false := by
    simpa using mt (hi.serving e) hnew
  refine .imp (addToReadyList_yields hready hi.once (hi.sorted.set hready)) fun l h => ?_
  obtain ⟨hl, he, honce, hsorted⟩ := h
  refine yields_ok.2 (hi.change rfl ?_ ?_ hl ?_ honce hsorted ?_ ?_ ?_)
  · refine .trans ?_ hparts
    rw [← append_assoc]
    exact perm_append_singleton e _
  · simpa [erase_of_not_mem hnew] using (perm_append_singleton e q.allocatedList).erase e
  · simp [he, hidle]
  · simp [hidle]
  · simp [MshrQueue.set, hi.allocated]
  · simp [MshrQueue.set, hserve, hidle]

theorem Inv.update (hs : m.inService = q.inService e) (hsorted : Sorted (q.set e m) q.readyList) :
    Inv (q.set e m) := by
  refine hi.change rfl hi.parts (.refl _) (.refl _) ?_ hi.once hsorted (hs ▸ hi.serving e) hi.allocated ?_
  · rw [hs]
    exact hi.ready e
  · rw [hs]
    exact (Int.sub_add_cancel _ _).symm

theorem Inv.markInService {b : Bool} : Yields Inv (q.markInService e b) := by
  simp only [MshrQueue.markInService, Mshr.markInService, yields_bind, yields_ite, yields_error, yields_ok, implies_true,
    true_and]
  refine fun _ => erase_yields.imp fun l h => ?_
  obtain ⟨he, hl⟩ := h
  obtain ⟨halloc, hidle⟩ := (hi.ready e).1 he
  have hgone : e ∉ q.readyList.erase e := hi.once.not_mem_erase
  subst hl
  refine hi.change rfl hi.parts (.refl _) ?_ ?_ (hi.once.erase e) (.set (hi.sorted.sublist erase_sublist) hgone)
    (fun _ => halloc) hi.allocated ?_
  · rw [erase_of_not_mem hgone]
  · simp [hgone]
  · simp [hidle]

theorem Inv.markPending : Yields Inv (q.markPending e) := by
  simp only [MshrQueue.markPending, yields_ite, yields_error, yields_bind, implies_true, and_true]
  intro hserve
  have halloc := hi.serving e hserve
  have hready := hi.not_ready hserve
  refine .imp (addToReadyList_yields hready hi.once (hi.sorted.set hready)) fun l h => ?_
  obtain ⟨hl, he, honce, hsorted⟩ := h
  refine yields_ok.2 (hi.change rfl hi.parts (.refl _) hl ?_ honce hsorted (by simp) hi.allocated ?_)
  · exact iff_of_true he ⟨halloc, rfl⟩
  · simp [hserve, MshrQueue.set]

end

/-- In either case the entry is not in the ready list after `withdraw`. -/
theorem withdraw_yields (hready : q.inService e = true → e ∉ q.readyList) :
    Yields (fun q' => q' = { q with
      readyList := q.readyList.erase e
      numInService := q.numInService - if q.inService e then 1 else 0 }) (q.withdraw e) := by
  simp only [MshrQueue.withdraw, yields_ite, yields_ok, yields_bind]
  refine ⟨fun hserve => ?_, fun hserve => erase_yields.imp fun l hl => ?_⟩
  · rw [erase_of_not_mem (hready hserve), hserve, if_pos rfl]
  · rw [hl.2, if_neg hserve, Int.sub_zero]

theorem Inv.deallocate (hi : Inv q) : Yields Inv (q.deallocate e) := by
  simp only [MshrQueue.deallocate, yields_bind]
  refine erase_yields.imp fun alloc h => ?_
  obtain ⟨he, halloc⟩ := h
  subst halloc
  refine (withdraw_yields fun hserve => by exact hi.not_ready hserve).imp fun q₁ hq₁ => ?_
  subst hq₁
  simp only [Mshr.deallocate, yields_ite, yields_error, yields_ok, implies_true, true_and]
  intro _ _
  have hgone : e ∉ q.allocatedList.erase e := (nodup_append.1 hi.nodup).2.1.not_mem_erase
  have hready : e ∉ q.readyList.erase e := hi.once.not_mem_erase
  refine hi.change rfl ?_ ?_ ?_ ?_ (hi.once.erase e) (.set (hi.sorted.sublist erase_sublist) hready) (by simp) ?_ ?_
  · refine .trans ?_ hi.parts
    exact perm_middle.symm.trans ((perm_cons_erase he).symm.append_left q.freeList)
  · rw [MshrQueue.set, erase_of_not_mem hgone]
  · rw [MshrQueue.set, erase_of_not_mem hready]
  · simp [MshrQueue.set, hready, hgone]
  · have hlen := length_erase_of_mem he
    have hpos := length_pos_of_mem he
    have hnum := hi.allocated
    show q.allocated - 1 = (q.allocatedList.erase e).length
    omega
  · exact (Int.add_zero _).symm

/-- An entry in the middle of a sorted list may change its ready time within its neighbours'. -/
theorem Sorted.change {before after : List Nat} (hs : Sorted q (before ++ e :: after))
    (hnd : (before ++ e :: after).Nodup) (hb : ∀ i ∈ before, q.readyTime i ≤ m.readyTime)
    (ha : ∀ i ∈ after, m.readyTime ≤ q.readyTime i) :
    Sorted (q.set e m) (before ++ e :: after) := by
  obtain ⟨hout, -⟩ := nodup_cons.1 (perm_middle.nodup_iff.1 hnd)
  have hbefore : e ∉ before := fun h => hout (mem_append_left _ h)
  have hafter : e ∉ after := fun h => hout (mem_append_right _ h)
  obtain ⟨hs₁, hs₂, hacross⟩ := pairwise_append.1 hs
  obtain ⟨-, hs₃⟩ := pairwise_cons.1 hs₂
  refine pairwise_append.2
    ⟨Sorted.set hs₁ hbefore, pairwise_cons.2 ⟨?_, Sorted.set hs₃ hafter⟩, ?_⟩
  · intro i hi
    rw [readyTime_set, readyTime_set, if_pos rfl, if_neg (by rintro rfl; exact hafter hi)]
    exact ha i hi
  · intro i hi j hj
    rw [readyTime_set i, if_neg (by rintro rfl; exact hbefore hi)]
    rcases mem_cons.1 hj with rfl | hlater
    · rw [readyTime_set, if_pos rfl]
      exact hb i hi
    · rw [readyTime_set, if_neg (by rintro rfl; exact hafter hlater)]
      exact hacross i hi j hj

/-- The entry is not moved, whatever its new ready time is. -/
theorem delay_yields : Yields (fun q' => e ∈ q.readyList ∧
    q' = q.set e { q.entries e with readyTime := (tick + delayTicks) % 2 ^ 64 })
    (q.delay tick e delayTicks) := by
  have hself : ∀ l, splice (some e) l e = l := fun l => if_pos rfl
  simp only [MshrQueue.delay, Mshr.delay, yields_bind, yields_ite, yields_error, yields_ok, implies_true, and_true]
  intro _ he
  -- the search ends where it starts
  rw [dropWhile_self he, find?_cons_of_pos (by simp), hself]
  exact ⟨he, rfl⟩

theorem Inv.delay (hi : Inv q) (hb : ∀ i ∈ ahead q e, q.readyTime i ≤ (tick + delayTicks) % 2 ^ 64)
    (ha : ∀ i ∈ behind q e, (tick + delayTicks) % 2 ^ 64 ≤ q.readyTime i) :
    Yields Inv (q.delay tick e delayTicks) := by
  refine delay_yields.imp fun q' h => ?_
  obtain ⟨he, hq'⟩ := h
  refine hq' ▸ hi.update rfl ?_
  have hsplit : q.readyList = ahead q e ++ e :: behind q e := by
    rw [behind, ← dropWhile_self he]
    exact takeWhile_append_dropWhile.symm
  have hs := hi.sorted
  have hnd := hi.once
  rw [hsplit] at hs hnd ⊢
  exact hs.change hnd hb ha

end Inv

/-! ### Calls on the entries -/

/-- The calls leave the fields that the queue reads as they are; the one that changes the ready time
is `promoteDeferredTargets`. -/
theorem call_kept {m : Mshr} {tick : Nat} (c : Mshr.Call) :
    Yields (fun r => r.mshr.inService = m.inService ∧
    (c ≠ .promoteDeferredTargets → r.mshr.readyTime = m.readyTime)) (m.call tick c) := by
  cases c with
  | allocateTarget pkt whenReady order fill => simp [Mshr.call, Mshr.allocateTarget]
  | handleSnoop pkt order copy => simp [Mshr.call, Mshr.handleSnoop, Mshr.snoopPending, Mshr.saveSnoop]
  | extractServiceableTargets response => simp [Mshr.call, Mshr.extractServiceableTargets]
  | promoteDeferredTargets => simp [Mshr.call, Mshr.promoteDeferredTargets]
  | promoteReadable => simp [Mshr.call, Mshr.promoteReadable, Mshr.promoteIf]
  | promoteWritable => simp [Mshr.call, Mshr.promoteWritable, Mshr.promoteIf]
  | markDownstreamPending => simp [Mshr.call]
  | clearDownstreamPending => simp [Mshr.call, Mshr.clearDownstreamPending]
  | forward b => simp [Mshr.call]

theorem Inv.call {q : MshrQueue} {e tick : Nat} (hi : Inv q) {c : Mshr.Call}
    (he : c = .promoteDeferredTargets → q.inService e = true) : Yields Inv (q.call tick e c) := by
  simp only [MshrQueue.call, yields_bind, yields_ok]
  refine (call_kept c).imp fun r h => ?_
  obtain ⟨hserve, htime⟩ := h
  refine hi.update hserve ?_
  by_cases hc : c = .promoteDeferredTargets
  · exact hi.sorted.set (hi.not_ready (he hc))
  · refine hi.sorted.imp fun {i j} hle => ?_
    have hsame : ∀ i, (q.set e r.mshr).readyTime i = q.readyTime i := by
      intro i
      rw [readyTime_set]
      split
      · rename_i hie
        rw [hie, htime hc]
        rfl
      · rfl
    rwa [hsame, hsame]

/-! ## Runs -/

theorem Inv.step {s : State} {l : Label} (hi : Inv s.queue) (ht : s.tick < maxTick)
    (he : enabled s l)
    (hg : Meets s l) : Yields (fun s' => Inv s'.queue ∧ s'.tick < maxTick) (step s l) := by
  have keep {x : Except Fault MshrQueue} (hx : Yields Inv x) :
      Yields (fun s' : State => Inv s'.queue ∧ s'.tick < maxTick) (x >>= fun queue => .ok { s with queue }) := by
    simp only [yields_bind, yields_ok]
    exact hx.imp fun q hq => ⟨hq, ht⟩
  cases l with
  | allocate blkAddr blkSize pkt whenReady order fill => exact keep hi.allocate
  | deallocate e => exact keep hi.deallocate
  | markInService e b => exact keep hi.markInService
  | markPending e => exact keep hi.markPending
  | delay e delayTicks => exact keep (hi.delay hg.1 hg.2)
  | call e c => exact keep (hi.call he.2)
  | tick t => exact yields_ok.2 ⟨hi, hg⟩

theorem Inv.offers {s : State} (hi : Inv s.queue) (ht : s.tick < maxTick) : Offers s := by
  have hhead : ∀ e rest, s.queue.readyList = e :: rest →
      ∀ i, Waiting s.queue i → s.queue.readyTime e ≤ s.queue.readyTime i := by
    intro e rest hl i hw
    have hs := hi.sorted
    have hmem := (hi.ready i).2 hw
    rw [hl] at hs hmem
    rcases mem_cons.1 hmem with rfl | hmem
    · exact le_rfl
    · exact (pairwise_cons.1 hs).1 i hmem
  refine ⟨hi.parts, hi.ready, hi.once, hi.allocated, hi.inService, ?_, ?_, ?_⟩
  · unfold nextReadyTime
    split
    · rename_i hnil
      have hnone : ∀ e, ¬ Waiting s.queue e := by
        intro e hw
        have hmem := (hi.ready e).2 hw
        rw [hnil] at hmem
        cases hmem
      exact ⟨fun e hw => absurd hw (hnone e), .inr ⟨hnone, rfl⟩⟩
    · rename_i e rest hl
      exact ⟨hhead e rest hl, .inl ⟨e, (hi.ready e).1 (hl ▸ mem_cons_self), rfl⟩⟩
  · unfold getNext nextReadyTime
    split
    · simp [ht]
    · split
      · rename_i hlater
        simp [hlater]
      · rename_i hready
        simpa using hready
  · intro e he
    unfold getNext at he
    unfold nextReadyTime
    split at he
    · cases he
    · rename_i i rest hl
      split at he
      · cases he
      · cases he
        exact ⟨(hi.ready e).1 (hl ▸ mem_cons_self), rfl⟩

/-- **The queue offers the earliest ready entry in the runs that keep to `Meets`.** -/
theorem offers_earliest {s : State} (hr : (machine.under Meets).Reachable (.ok s)) : Offers s := by
  obtain ⟨hi, ht⟩ : Inv s.queue ∧ s.tick < maxTick := by
    refine Machine.invariant (I := fun s => Inv s.queue ∧ s.tick < maxTick) ?_ ?_ hr
    · rintro s ⟨ht, n, hq⟩
      rw [hq, ht]
      exact ⟨.new n, by decide⟩
    · intro s l s' hi he hg h
      exact hi.1.step hi.2 he hg s' h
  exact hi.offers ht

/-! ## Runs on fixed calls -/

def start : State where
  queue := .new 2

/-- Two entries are allocated, the later one first; it is delayed, and the other is sent. -/
theorem offers_earliest_delayed :
    ∃ s, (machine.under Meets).Reachable (.ok s) ∧ s.queue.readyList = [0] ∧
      s.queue.nextReadyTime = 8 ∧ Offers s := by
  have hr := fun {y} => Machine.under_decided (M := machine)
    (P := fun s l => enabled s l ∧ Meets s l) (fun _ _ => id)
    [.allocate 0 8 { id := 0, cmd := .readReq } 5 0 true,
      .allocate 8 8 { id := 1, cmd := .readReq, addr := 8 } 0 1 true,
      .tick 5, .delay 0 3, .markInService 1 false]
    (y := y) (s := start) ⟨rfl, 2, rfl⟩
  exact ⟨_, hr rfl, rfl, rfl, offers_earliest (hr rfl)⟩

/-- An entry that is delayed stays in front of one that is ready, which is not offered. An empty
queue offers nothing at `MaxTick`, which is not before the next ready time. -/
theorem not_earliest :
    (∃ s, machine.lts.Reachable (.ok s) ∧ s.queue.getNext s.tick = none ∧
      s.queue.nextReadyTime = 100 ∧ Waiting s.queue 1 ∧ s.queue.readyTime 1 = 0 ∧ ¬ Offers s) ∧
    ∃ s, machine.lts.Reachable (.ok s) ∧ s.queue.readyList = [] ∧ ¬ Offers s := by
  have hr := fun ls {y} => Machine.lts_decided (M := machine) (P := enabled) (fun _ _ => id) ls
    (y := y) (s := start) ⟨rfl, 2, rfl⟩
  constructor
  · refine ⟨_, hr [.allocate 0 8 { id := 0, cmd := .readReq } 0 0 true,
      .allocate 8 8 { id := 1, cmd := .readReq, addr := 8 } 0 1 true, .delay 0 100] rfl,
      rfl, rfl, ⟨by decide, rfl⟩, rfl, fun h => ?_⟩
    have hle := h.next.1 1 ⟨by decide, rfl⟩
    exact absurd hle (by decide)
  · refine ⟨_, hr [.tick maxTick] rfl, rfl, fun h => ?_⟩
    exact absurd (h.null.1 rfl) (lt_irrefl _)

end Gem5Cxl.L3.MshrReady
