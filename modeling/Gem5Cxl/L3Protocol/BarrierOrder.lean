import Gem5Cxl.Core.Dependents
import Gem5Cxl.Core.Ordered
import Gem5Cxl.L2Machine.MemDepUnit

/-!
# Memory barriers order memory instructions

Beside the unit the state has a record of every instruction that was inserted, youngest first:
how it was inserted, and whether it was completed or squashed since. `ready` has what the last
call handed over.

* The sequence numbers of a thread increase, and no number is used twice.
* Calls name instructions that were inserted, in any order; the predictor answers anything.

**Result.** `barriers_order`: if an instruction that both load and store barriers order is
inserted only when the outstanding store barriers are load barriers too, or no load barrier is
outstanding, then in every state that a run reaches, nothing that `insert`, `regsReady` or
`wakeDependents` has handed over has an older barrier that orders it and is neither completed nor
squashed. No squashed instruction is handed over, and the only assertions that can fail are those
about an instruction that is no longer in the unit. `atomic_passes_barrier` is a run in which an
atomic waits for the load barrier only.

**Why.** `memDeps` counts the lists that an entry is on (`Core.owed`), and an entry is on the list
of every barrier that orders it, until that barrier completes. If the barrier is squashed, so is
the entry.
-/
namespace Gem5Cxl.L3.BarrierOrder

open Core L1 L2.MemDep MemDepUnit List
open Function (update update_self update_of_ne)

structure Rec where
  inst : DynInst
  /-- Inserted by `insert`. -/
  speculative : Bool := false
  completed : Bool := false
  squashed : Bool := false
deriving DecidableEq, Repr

structure Sys where
  unit : MemDepUnit := {}
  insts : List Rec := []

inductive Ev
  | insert (inst : DynInst) (readyToIssue : Bool) (dep : Nat)
  | insertNonSpec (inst : DynInst)
  | insertBarrier (inst : DynInst)
  | regsReady (inst : DynInst)
  | nonSpecInstReady (inst : DynInst)
  | reschedule (inst : DynInst)
  | replay
  | completeInst (inst : DynInst)
  | squash (squashedNum tid : Nat)

def Rec.sn (r : Rec) : Nat := r.inst.seqNum

def Rec.Active (r : Rec) : Prop := r.completed = false ∧ r.squashed = false

def Rec.complete (inst : DynInst) (r : Rec) : Rec :=
  if r.inst = inst then { r with completed := true } else r

/-- A completed instruction has left the unit. -/
def Rec.squash (squashedNum tid : Nat) (r : Rec) : Rec :=
  if r.completed = false ∧ r.inst.threadNumber = tid ∧
    squashedNum < r.sn then { r with squashed := true } else r

def step (s : Sys) (e : Ev) : Except Fault Sys := do
  let u := { s.unit with ready := [] }
  match e with
  | .insert inst readyToIssue dep =>
    return ⟨← u.insert inst readyToIssue dep, { inst, speculative := true } :: s.insts⟩
  | .insertNonSpec inst => return ⟨← u.insertNonSpec inst, { inst } :: s.insts⟩
  | .insertBarrier inst => return ⟨u.insertBarrier inst, { inst } :: s.insts⟩
  | .regsReady inst => return { s with unit := ← u.regsReady inst }
  | .nonSpecInstReady inst => return { s with unit := ← u.nonSpecInstReady inst }
  | .reschedule inst => return { s with unit := u.reschedule inst }
  | .replay => return { s with unit := ← u.replay }
  | .completeInst inst => return ⟨← u.completeInst inst, s.insts.map (Rec.complete inst)⟩
  | .squash squashedNum tid =>
    return ⟨← u.squash squashedNum tid, s.insts.map (Rec.squash squashedNum tid)⟩

def Next (insts : List Rec) (inst : DynInst) : Prop :=
  ∀ r ∈ insts, r.sn ≠ inst.seqNum ∧ (r.inst.threadNumber = inst.threadNumber → r.sn < inst.seqNum)

def enabled (s : Sys) : Ev → Prop
  | .insert inst _ _ | .insertNonSpec inst | .insertBarrier inst => Next s.insts inst
  | .regsReady inst | .nonSpecInstReady inst | .reschedule inst | .completeInst inst =>
    ∃ r ∈ s.insts, r.inst = inst
  | .replay | .squash _ _ => True

def machine : Machine Sys Ev Fault where
  init s := s = {}
  enabled := enabled
  step := step

/-- An instruction that both kinds of barrier order waits for both. -/
def Covered (s : Sys) : Ev → Prop
  | .insert inst _ _ =>
    (inst.isLoad || inst.isAtomic) = true → (inst.isStore || inst.isAtomic) = true →
      s.unit.loadBarrierSNs = [] ∨ s.unit.storeBarrierSNs ⊆ s.unit.loadBarrierSNs
  | _ => True

/-- `b` is an older barrier that orders `r` and is outstanding. -/
structure Blocks (b r : Rec) : Prop where
  thread : b.inst.threadNumber = r.inst.threadNumber
  older : b.sn < r.sn
  active : b.Active
  orders : (r.inst.isLoad || r.inst.isAtomic) = true ∧ b.inst.isReadBarrier = true ∨
    (r.inst.isStore || r.inst.isAtomic) = true ∧ b.inst.isWriteBarrier = true

/-- The functions that look at `memDeps`. -/
def Caller.Waits (c : Caller) : Prop := c = .insert ∨ c = .regsReady ∨ c = .wakeDependents

/-- What was handed over was not squashed and not blocked. -/
def Ordered (s : Sys) : Prop :=
  ∀ c i, (c, i) ∈ s.unit.ready → ∃ r ∈ s.insts, r.inst = i ∧ r.squashed = false ∧
    (r.speculative = true → Caller.Waits c → ∀ b ∈ s.insts, ¬ Blocks b r)

/-- The assertions that are not about an instruction that has left the unit. -/
def Bad (e : Fault) : Prop :=
  e = .assertion .memDepsZero ∨ e = .assertion .hasStoreBarrier ∨ e = .assertion .hasLoadBarrier ∨
    e = .assertion .memDepsPositive ∨ e = .assertion .squashedInHash ∨
      e = .assertion .entryNotSquashed

/-! ## Frames -/

/-- The two units have the same instructions; counters, lists of dependents and `ready`
may differ. -/
structure Frame (u u' : MemDepUnit) : Prop where
  hash : u'.memDepHash = u.memDepHash
  list : u'.instList = u.instList
  loads : u'.loadBarrierSNs = u.loadBarrierSNs
  stores : u'.storeBarrierSNs = u.storeBarrierSNs
  inst : ∀ n, (u'.entries n).inst = (u.entries n).inst
  squashed : ∀ n, (u'.entries n).squashed = (u.entries n).squashed

variable {u u' u'' : MemDepUnit} {p n : Nat} {inst : DynInst} {S : Finset Nat} {l : List Nat}
  {f : MemDepEntry → MemDepEntry} {tid : Nat} (readyToIssue : Bool) (i : DynInst)

theorem Frame.refl (u : MemDepUnit) : Frame u u := ⟨rfl, rfl, rfl, rfl, fun _ => rfl, fun _ => rfl⟩

theorem Frame.trans (h : Frame u u') (h' : Frame u' u'') : Frame u u'' :=
  ⟨h'.hash.trans h.hash, h'.list.trans h.list, h'.loads.trans h.loads, h'.stores.trans h.stores,
    fun n => (h'.inst n).trans (h.inst n), fun n => (h'.squashed n).trans (h.squashed n)⟩

theorem entries_modify_self (f : MemDepEntry → MemDepEntry) :
    (u.modify p f).entries p = f (u.entries p) :=
  update_self ..

theorem entries_modify_of_ne (h : n ≠ p) : (u.modify p f).entries n = u.entries n :=
  update_of_ne h ..

theorem entries_modify_field {β : Type} (g : MemDepEntry → β)
    (h : g (f (u.entries p)) = g (u.entries p)) (n : Nat) :
    g ((u.modify p f).entries n) = g (u.entries n) := by
  by_cases hn : n = p
  · rw [hn, entries_modify_self, h]
  · rw [entries_modify_of_ne hn]

theorem Frame.modify (hinst : (f (u.entries p)).inst = (u.entries p).inst)
    (hsq : (f (u.entries p)).squashed = (u.entries p).squashed) : Frame u (u.modify p f) := by
  exact ⟨rfl, rfl, rfl, rfl, entries_modify_field MemDepEntry.inst hinst,
    entries_modify_field MemDepEntry.squashed hsq⟩

/-! ## Counters -/

def out (u : MemDepUnit) (n : Nat) : List Nat := (u.entries n).dependInsts

/-- The counters are right, and what is not in `S` was never touched. -/
structure Counts (S : Finset Nat) (u : MemDepUnit) : Prop where
  deps : ∀ n, (u.entries n).memDeps = owed S (out u) n
  fresh : ∀ n, n ∉ S → u.entries n = { inst := { seqNum := n } }

theorem out_modify : out (u.modify p f) = update (out u) p (f (u.entries p)).dependInsts := by
  funext n
  by_cases hn : n = p
  · rw [hn, out, entries_modify_self, update_self]
  · rw [out, entries_modify_of_ne hn, update_of_ne hn, out]

theorem out_modify_of_eq (h : (f (u.entries p)).dependInsts = (u.entries p).dependInsts) :
    out (u.modify p f) = out u := by
  rw [out_modify, h]
  exact Function.update_eq_self p (out u)

/-- What was handed over between the two units. -/
def Handed (P : Caller → Nat → Prop) (u u' : MemDepUnit) : Prop :=
  ∀ c i, (c, i) ∈ u'.ready → (c, i) ∈ u.ready ∨ ∃ p, i = (u.entries p).inst ∧
    (u.entries p).squashed = false ∧ P c p

theorem Handed.refl (P : Caller → Nat → Prop) (u : MemDepUnit) :
    Handed P u u := fun _ _ hi => .inl hi

variable {P : Caller → Nat → Prop}

theorem Handed.mono {Q : Caller → Nat → Prop} (h : Handed P u u') (hPQ : ∀ c q, P c q → Q c q) :
    Handed Q u u' := by
  intro c i hi
  rcases h c i hi with hold | ⟨q, hinst, hsq, hP⟩
  · exact .inl hold
  · exact .inr ⟨q, hinst, hsq, hPQ c q hP⟩

theorem Handed.trans (h : Handed P u u') (hf : Frame u u') (h' : Handed P u' u'') :
    Handed P u u'' := by
  intro c i hi
  rcases h' c i hi with hmid | ⟨q, hinst, hsq, hP⟩
  · exact h c i hmid
  · exact .inr ⟨q, hinst.trans (hf.inst q), (hf.squashed q).symm.trans hsq, hP⟩

theorem moveToReady_ok (c : Caller) (h : (u.entries p).squashed = false) :
    u.moveToReady c p = .ok { u with ready := u.ready ++ [(c, (u.entries p).inst)] } := by
  rw [moveToReady, h]
  rfl

theorem handed_one {c : Caller} (hf : Frame u u') (hready : u'.ready = u.ready)
    (hsq : (u.entries p).squashed = false) (hP : P c p) :
    Handed P u { u' with ready := u'.ready ++ [(c, (u'.entries p).inst)] } := by
  intro c' i hi
  rcases mem_append.1 hi with hold | hnew
  · exact .inl (hready ▸ hold)
  · rw [mem_singleton] at hnew
    cases hnew
    exact .inr ⟨p, hf.inst p, hsq, hP⟩

/-- One dependent is woken: its counter goes down, and it is handed over if that was the last. -/
theorem wake_ok (hpos : 0 < (u.entries p).memDeps) :
    ∃ u', u.wake p = .ok u' ∧ Frame u u' ∧ out u' = out u ∧
      (∀ n, (u'.entries n).memDeps = (u.entries n).memDeps - if n = p then 1 else 0) ∧
      (∀ n, n ≠ p → u'.entries n = u.entries n) ∧
      Handed (fun c q => c = .wakeDependents ∧ q = p ∧ (u'.entries p).memDeps = 0) u u' := by
  let u₁ := u.modify p fun e => { e with memDeps := e.memDeps - 1 }
  have hdeps : ∀ n, (u₁.entries n).memDeps = (u.entries n).memDeps - if n = p then 1 else 0 := by
    intro n
    by_cases hn : n = p
    · rw [hn, entries_modify_self, if_pos rfl]
    · rw [entries_modify_of_ne hn, if_neg hn, Nat.sub_zero]
  have hframe : Frame u u₁ := .modify rfl rfl
  have hout : out u₁ = out u := out_modify_of_eq rfl
  have hother : ∀ n, n ≠ p → u₁.entries n = u.entries n := fun n hn => entries_modify_of_ne hn
  unfold wake
  simp only [if_neg (ne_of_gt hpos)]
  split
  · rename_i hlast
    rw [moveToReady_ok]
    · refine ⟨_, rfl, { hframe with }, hout, hdeps, hother,
        handed_one hframe rfl hlast.2.2 ⟨rfl, rfl, ?_⟩⟩
      refine (hdeps p).trans ?_
      rw [if_pos rfl]
      exact hlast.1
    · rw [hframe.squashed]
      exact hlast.2.2
  · exact ⟨_, rfl, hframe, hout, hdeps, hother, fun c i hi => .inl hi⟩

/-- The loop of `wakeDependents`: `rest` are the dependents still to be woken, and `o` the
lists without those of the producer. -/
theorem wakeLoop_ok {o : Nat → List Nat} {rest : List Nat}
    (hdeps : ∀ n, (u.entries n).memDeps = owed S o n + rest.count n)
    (hfresh : ∀ n, n ∉ S → u.entries n = { inst := { seqNum := n } }) :
    ∃ u', rest.foldlM wake u = .ok u' ∧ Frame u u' ∧ out u' = out u ∧
      (∀ n, (u'.entries n).memDeps = owed S o n) ∧
        (∀ n, n ∉ S → u'.entries n = { inst := { seqNum := n } }) ∧
      Handed (fun c q => c = .wakeDependents ∧ q ∈ S ∧ owed S o q = 0) u u' := by
  induction rest generalizing u with
  | nil => exact ⟨u, rfl, .refl u, rfl, hdeps, hfresh, .refl _ u⟩
  | cons p rest ih =>
    have hpos : 0 < (u.entries p).memDeps := by
      rw [hdeps, count_cons_self]
      omega
    have hpS : p ∈ S := by
      by_contra hp
      rw [hfresh p hp] at hpos
      exact lt_irrefl 0 hpos
    obtain ⟨u₁, hwake, hframe, hout, hdeps₁, hother, hhanded⟩ := wake_ok hpos
    have hcount : ∀ n, (u₁.entries n).memDeps = owed S o n + rest.count n := by
      intro n
      rw [hdeps₁, hdeps, count_cons]
      by_cases hn : n = p
      · subst hn
        simp only [BEq.rfl, if_true]
        omega
      · have hne : ¬ (p == n) = true := fun h => hn (eq_of_beq h).symm
        simp only [if_neg hn, if_neg hne, add_zero, Nat.sub_zero]
    have hfresh₁ : ∀ n, n ∉ S → u₁.entries n = { inst := { seqNum := n } } := by
      intro n hn
      rw [hother n fun heq => hn (heq ▸ hpS), hfresh n hn]
    obtain ⟨u', hrun, hframe', hout', hdeps', hfresh', hhanded'⟩ := ih hcount hfresh₁
    refine ⟨u', ?_, hframe.trans hframe', hout'.trans hout, hdeps', hfresh', ?_⟩
    · rw [foldlM_cons, hwake, ok_bind, hrun]
    · refine .trans (hhanded.mono ?_) hframe hhanded'
      rintro c q ⟨hc, rfl, hzero⟩
      have := hcount q
      exact ⟨hc, hpS, by omega⟩

theorem wakeDependents_ok (hc : Counts S u) (hin : inst.seqNum ∈ S) :
    Ensures Bad (fun u' => Frame u u' ∧ Counts S u' ∧ (∀ n, n ≠ inst.seqNum → out u' n = out u n) ∧
      Handed (fun c q => q ∈ S ∧ (Caller.Waits c → (u'.entries q).memDeps = 0)) u u')
      (u.wakeDependents inst) := by
  unfold wakeDependents
  split
  · exact .ok ⟨.refl u, hc, fun _ _ => rfl, .refl _ u⟩
  · unfold findInHash
    split
    · obtain ⟨u₁, hrun, hframe, hout, hdeps, hfresh, hhanded⟩ := wakeLoop_ok
        (fun n => (hc.deps n).trans (owed_clear hin n)) hc.fresh
      rw [out] at hrun
      rw [ok_bind, hrun]
      let u₂ := u₁.modify inst.seqNum fun e => { e with dependInsts := [] }
      have hframe' : Frame u₁ u₂ := .modify rfl rfl
      have hout' : out u₂ = update (out u) inst.seqNum [] := by rw [out_modify, hout]
      have hdeps' : ∀ n, (u₂.entries n).memDeps = owed S (update (out u) inst.seqNum []) n := by
        intro n
        rw [← hdeps]
        exact entries_modify_field MemDepEntry.memDeps rfl n
      refine .ok ⟨hframe.trans hframe', ⟨fun n => by rw [hdeps', hout'], fun n hn => ?_⟩,
        fun n hn => ?_, ?_⟩
      · have hne : n ≠ inst.seqNum := fun heq => hn (heq ▸ hin)
        rw [entries_modify_of_ne hne, hfresh n hn]
      · rw [hout', update_of_ne hn]
      · refine (hhanded.mono ?_).trans hframe (fun c i hi => .inl hi)
        rintro c q ⟨-, hq, hzero⟩
        exact ⟨hq, fun _ => (hdeps' q).trans hzero⟩
    · exact .error (by simp [Bad])

/-! ## The invariant -/

def Younger (r r' : Rec) : Prop :=
  r'.sn ≠ r.sn ∧ (r'.inst.threadNumber = r.inst.threadNumber → r'.sn < r.sn)

/-- The unit has the active instructions, each thread's in order, and the barriers among them. -/
structure Tracks (u : MemDepUnit) (insts : List Rec) : Prop where
  order : insts.Pairwise Younger
  inst : ∀ r ∈ insts, (u.entries r.sn).inst = r.inst
  squashed : ∀ r ∈ insts, (u.entries r.sn).squashed = r.squashed
  hash : ∀ n, n ∈ u.memDepHash ↔ ∃ r ∈ insts, r.sn = n ∧ r.Active
  nodup : u.memDepHash.Nodup
  list : ∀ tid i, i ∈ u.instList tid ↔ ∃ r ∈ insts, r.inst = i ∧ r.Active ∧ i.threadNumber = tid
  sorted : ∀ tid, (u.instList tid).Pairwise fun i i' => i.seqNum < i'.seqNum
  loads : ∀ r ∈ insts, r.Active → (r.inst.isReadBarrier || r.inst.isHtmCmd) = true →
    r.sn ∈ u.loadBarrierSNs
  stores : ∀ r ∈ insts, r.Active → (r.inst.isWriteBarrier || r.inst.isHtmCmd) = true →
    r.sn ∈ u.storeBarrierSNs

def keys (insts : List Rec) : Finset Nat := (insts.map Rec.sn).toFinset

/-- An instruction is on the lists of the barriers that block it. -/
def Edges (u : MemDepUnit) (insts : List Rec) : Prop :=
  ∀ r ∈ insts, r.speculative = true → ∀ b ∈ insts, Blocks b r → r.sn ∈ out u b.sn

/-- What was handed over was not squashed and, where that is looked at, waited for nothing. -/
def Released (u : MemDepUnit) (insts : List Rec) : Prop :=
  ∀ c i, (c, i) ∈ u.ready → ∃ r ∈ insts, r.inst = i ∧ r.squashed = false ∧
    (Caller.Waits c → (u.entries r.sn).memDeps = 0)

structure Inv (s : Sys) : Prop where
  tracks : Tracks s.unit s.insts
  counts : Counts (keys s.insts) s.unit
  edges : Edges s.unit s.insts
  released : Released s.unit s.insts

variable {s : Sys} {insts : List Rec} {r r' : Rec}

theorem mem_keys : n ∈ keys insts ↔ ∃ r ∈ insts, r.sn = n := by
  rw [keys, mem_toFinset, mem_map]

theorem sn_mem_keys (h : r ∈ insts) : r.sn ∈ keys insts := mem_keys.2 ⟨r, h, rfl⟩

theorem Inv.ordered (h : Inv s) : Ordered s := by
  intro c i hi
  obtain ⟨r, hr, hinst, hsq, hdeps⟩ := h.released c i hi
  refine ⟨r, hr, hinst, hsq, fun hspec hc b hb hblocks => ?_⟩
  have hzero : owed (keys s.insts) (out s.unit) r.sn = 0 :=
    (h.counts.deps r.sn).symm.trans (hdeps hc)
  exact not_mem_of_owed hzero (sn_mem_keys hb) (h.edges r hr hspec b hb hblocks)

section

variable (h : Tracks u insts)
include h

theorem Tracks.eq_of_sn (hr : r ∈ insts) (hr' : r' ∈ insts) (heq : r.sn = r'.sn) : r = r' := by
  have hnodup : (insts.map Rec.sn).Nodup := pairwise_map.2 (h.order.imp fun hy heq => hy.1 heq.symm)
  exact inj_on_of_nodup_map hnodup hr hr' heq

theorem Tracks.frame (hf : Frame u u') : Tracks u' insts where
  order := h.order
  inst r hr := (hf.inst _).trans (h.inst r hr)
  squashed r hr := (hf.squashed _).trans (h.squashed r hr)
  hash := by rw [hf.hash]; exact h.hash
  nodup := by rw [hf.hash]; exact h.nodup
  list := by rw [hf.list]; exact h.list
  sorted := by rw [hf.list]; exact h.sorted
  loads := by rw [hf.loads]; exact h.loads
  stores := by rw [hf.stores]; exact h.stores

theorem Tracks.list_nodup (tid : Nat) : (u.instList tid).Nodup :=
  (h.sorted tid).imp fun hlt heq => ne_of_lt hlt (congrArg DynInst.seqNum heq)

theorem Tracks.active (hr : r ∈ insts) (hin : r.sn ∈ u.memDepHash) : r.Active := by
  obtain ⟨r', hr', heq, hact⟩ := (h.hash r.sn).1 hin
  exact h.eq_of_sn hr' hr heq ▸ hact

end

theorem released_of_handed (hinst : ∀ r ∈ insts, (u.entries r.sn).inst = r.inst)
    (hsquashed : ∀ r ∈ insts, (u.entries r.sn).squashed = r.squashed) (hnil : u.ready = [])
    (hh : Handed (fun c q => q ∈ keys insts ∧ (Caller.Waits c → (u'.entries q).memDeps = 0)) u u') :
    Released u' insts := by
  intro c i hi
  rcases hh c i hi with hold | ⟨q, hi, hsq, hq, hdeps⟩
  · rw [hnil] at hold
    cases hold
  · obtain ⟨r, hr, rfl⟩ := mem_keys.1 hq
    exact ⟨r, hr, (hi.trans (hinst r hr)).symm, (hsquashed r hr).symm.trans hsq, hdeps⟩

theorem Inv.start (h : Inv s) : Inv { s with unit.ready := [] } :=
  ⟨h.tracks.frame { Frame.refl _ with }, { h.counts with }, h.edges,
    fun _ _ hi => (nomatch hi)⟩

theorem Inv.hand (h : Inv s) (hnil : s.unit.ready = []) (hf : Frame s.unit u')
    (hc : Counts (keys s.insts) u') (hout : out u' = out s.unit)
    (hh : Handed (fun c q => q ∈ keys s.insts ∧ (Caller.Waits c → (u'.entries q).memDeps = 0))
      s.unit u') :
    Inv { s with unit := u' } := by
  refine ⟨h.tracks.frame hf, hc, ?_, released_of_handed h.tracks.inst h.tracks.squashed hnil hh⟩
  intro r hr hspec b hb hblocks
  rw [hout]
  exact h.edges r hr hspec b hb hblocks

/-! ## Calls that hand over -/

theorem Counts.modify (h : Counts S u) (hp : p ∈ S)
    (hdeps : (f (u.entries p)).memDeps = (u.entries p).memDeps)
    (hout : (f (u.entries p)).dependInsts = (u.entries p).dependInsts) :
    Counts S (u.modify p f) := by
  refine ⟨fun n => ?_, fun n hn => ?_⟩
  · rw [out_modify_of_eq hout, ← h.deps]
    exact entries_modify_field MemDepEntry.memDeps hdeps n
  · have hne : n ≠ p := fun heq => hn (heq ▸ hp)
    rw [entries_modify_of_ne hne, h.fresh n hn]

theorem Tracks.found (h : Tracks u insts) (hin : ∃ r ∈ insts, r.inst = inst)
    (hhash : inst.seqNum ∈ u.memDepHash) :
    inst.seqNum ∈ keys insts ∧ (u.entries inst.seqNum).squashed = false := by
  obtain ⟨r, hr, rfl⟩ := hin
  exact ⟨sn_mem_keys hr, (h.squashed r hr).trans (h.active hr hhash).2⟩

section

variable (h : Inv s) (hnil : s.unit.ready = []) (hin : ∃ r ∈ s.insts, r.inst = inst)
include h hnil hin

theorem Inv.regsReady :
    Ensures Bad (fun u' => Inv { s with unit := u' }) (s.unit.regsReady inst) := by
  unfold MemDepUnit.regsReady findInHash
  split
  · rename_i hhash
    obtain ⟨hkey, hsq⟩ := h.tracks.found hin hhash
    let u₁ := s.unit.modify inst.seqNum fun e => { e with regsReady := true }
    have hframe : Frame s.unit u₁ := .modify rfl rfl
    have hcounts : Counts (keys s.insts) u₁ := h.counts.modify hkey rfl rfl
    have hout : out u₁ = out s.unit := out_modify_of_eq rfl
    rw [ok_bind]
    dsimp only
    split
    · rename_i hzero
      rw [moveToReady_ok _ ((hframe.squashed _).trans hsq)]
      refine .ok (h.hand hnil { hframe with } { hcounts with } hout ?_)
      exact handed_one hframe rfl hsq ⟨hkey, fun _ => hzero⟩
    · exact .ok (h.hand hnil hframe hcounts hout fun c i hi => .inl hi)
  · exact .error (by simp [Bad])

theorem Inv.nonSpecInstReady :
    Ensures Bad (fun u' => Inv { s with unit := u' }) (s.unit.nonSpecInstReady inst) := by
  unfold MemDepUnit.nonSpecInstReady findInHash
  split
  · rename_i hhash
    obtain ⟨hkey, hsq⟩ := h.tracks.found hin hhash
    rw [ok_bind, moveToReady_ok _ hsq]
    refine .ok (h.hand hnil { Frame.refl _ with } { h.counts with } rfl ?_)
    exact handed_one (.refl _) rfl hsq ⟨hkey, fun hw => by simp [Caller.Waits] at hw⟩
  · exact .error (by simp [Bad])

end

theorem replayLoop_ok (ht : Tracks u insts) (l : List DynInst) :
    Ensures Bad (fun u' => (∃ ready, u' = { u with ready }) ∧
      Handed (fun c q => q ∈ keys insts ∧ c = .replay) u u') (l.foldlM replayOne u) := by
  induction l generalizing u with
  | nil => exact .ok ⟨⟨_, rfl⟩, .refl _ u⟩
  | cons inst l ih =>
    rw [foldlM_cons]
    unfold replayOne findInHash
    split
    · rename_i hhash
      obtain ⟨r, hr, hsn, hact⟩ := (ht.hash _).1 hhash
      have hsq : (u.entries inst.seqNum).squashed = false := by rw [← hsn, ht.squashed r hr, hact.2]
      have hframe : Frame u
          { u with ready := u.ready ++ [(.replay, (u.entries inst.seqNum).inst)] } :=
        { Frame.refl _ with }
      rw [ok_bind, moveToReady_ok _ hsq]
      refine (ih (ht.frame hframe)).imp fun u' ⟨hready, hhanded⟩ =>
        ⟨hready, .trans ?_ hframe hhanded⟩
      exact handed_one (.refl u) rfl hsq ⟨mem_keys.2 ⟨r, hr, hsn⟩, rfl⟩
    · exact .error (by simp [Bad])

theorem Inv.replay (h : Inv s) (hnil : s.unit.ready = []) :
    Ensures Bad (fun u' => Inv { s with unit := u' }) s.unit.replay := by
  refine (replayLoop_ok h.tracks _).bind ?_
  rintro _ ⟨⟨ready, rfl⟩, hhanded⟩
  refine .ok (h.hand hnil { Frame.refl _ with } { h.counts with } rfl
    (hhanded.mono fun c q hq => ⟨hq.1, fun hw => ?_⟩))
  rw [hq.2] at hw
  simp [Caller.Waits] at hw

/-! ## Instructions that leave -/

/-- `f` marks the records of `i`, which are then not active. -/
structure Retires (i : DynInst) (f : Rec → Rec) : Prop where
  inst : ∀ r, (f r).inst = r.inst
  speculative : ∀ r, (f r).speculative = r.speculative
  active : ∀ r, (f r).Active ↔ r.Active ∧ r.inst ≠ i

theorem Retires.ite {i : DynInst} {g : Rec → Rec} (hinst : ∀ r, (g r).inst = r.inst)
    (hspec : ∀ r, (g r).speculative = r.speculative) (hact : ∀ r, ¬ (g r).Active) :
    Retires i fun r => if r.inst = i then g r else r := by
  refine ⟨fun r => ?_, fun r => ?_, fun r => ?_⟩
  · split <;> simp [hinst]
  · split <;> simp [hspec]
  · split <;> simp_all

theorem retires_complete : Retires i (Rec.complete i) :=
  .ite (fun _ => rfl) (fun _ => rfl) fun _ => by simp [Rec.Active]

theorem complete_squashed (r : Rec) : (Rec.complete i r).squashed = r.squashed := by
  unfold Rec.complete
  split <;> rfl

/-- The record of one instruction is marked as squashed. -/
def Rec.mark (i : DynInst) (r : Rec) : Rec := if r.inst = i then { r with squashed := true } else r

theorem retires_mark : Retires i (Rec.mark i) :=
  .ite (fun _ => rfl) (fun _ => rfl) fun _ => by simp [Rec.Active]

variable {i : DynInst} {f : Rec → Rec}

theorem Retires.sn (hf : Retires i f) (r : Rec) : (f r).sn = r.sn := by
  rw [Rec.sn, hf.inst, Rec.sn]

theorem Retires.keys (hf : Retires i f) : keys (insts.map f) = keys insts := by
  have hsn : Rec.sn ∘ f = Rec.sn := funext hf.sn
  rw [BarrierOrder.keys, map_map, hsn, BarrierOrder.keys]

theorem Retires.barriers (hf : Retires i f) {k : DynInst → Bool} {l' : List Nat}
    (h : ∀ r ∈ insts, r.Active → k r.inst = true → r.sn ∈ l)
    (hl : ∀ r ∈ insts, r.inst ≠ i → r.sn ∈ l → r.sn ∈ l') :
    ∀ r ∈ insts.map f, r.Active → k r.inst = true → r.sn ∈ l' := by
  refine forall_mem_map.2 fun r hr hact hk => ?_
  obtain ⟨hact', hne⟩ := (hf.active r).1 hact
  rw [hf.inst] at hk
  rw [hf.sn]
  exact hl r hr hne (h r hr hact' hk)

theorem Tracks.retire (h : Tracks u insts) (hf : Retires r.inst f) (hr : r ∈ insts)
    (hinst : ∀ n, (u'.entries n).inst = (u.entries n).inst)
    (hsquashed : ∀ r ∈ insts, (u'.entries r.sn).squashed = (f r).squashed)
    (hhash : u'.memDepHash = u.memDepHash.erase r.sn)
    (hlist : u'.instList =
      update u.instList r.inst.threadNumber ((u.instList r.inst.threadNumber).erase r.inst))
    (hloads : ∀ n, n ≠ r.sn → n ∈ u.loadBarrierSNs → n ∈ u'.loadBarrierSNs)
    (hstores : ∀ n, n ≠ r.sn → n ∈ u.storeBarrierSNs → n ∈ u'.storeBarrierSNs) :
    Tracks u' (insts.map f) := by
  have hsn : ∀ r' ∈ insts, r'.inst ≠ r.inst → r'.sn ≠ r.sn := fun r' hr' hne heq =>
    hne (congrArg Rec.inst (h.eq_of_sn hr' hr heq))
  have hmem : ∀ {P : Rec → Prop}, (∃ r' ∈ insts.map f, P r') ↔ ∃ r' ∈ insts, P (f r') := by simp
  refine ⟨?_, ?_, ?_, fun n => ?_, ?_, fun tid j => ?_, fun tid => ?_, ?_, ?_⟩
  · refine pairwise_map.2 (h.order.imp fun {r₁ r₂} hy => ?_)
    unfold Younger at hy ⊢
    rwa [hf.sn, hf.sn, hf.inst, hf.inst]
  · refine forall_mem_map.2 fun r₁ hr₁ => ?_
    rw [hf.sn, hf.inst, hinst, h.inst r₁ hr₁]
  · refine forall_mem_map.2 fun r₁ hr₁ => ?_
    rw [hf.sn, hsquashed r₁ hr₁]
  · rw [hhash, h.nodup.mem_erase_iff, h.hash, hmem]
    constructor
    · rintro ⟨hne, r₁, hr₁, rfl, hact⟩
      refine ⟨r₁, hr₁, hf.sn r₁, (hf.active r₁).2 ⟨hact, fun heq => hne ?_⟩⟩
      rw [Rec.sn, heq, Rec.sn]
    · rintro ⟨r₁, hr₁, heq, hact⟩
      obtain ⟨hact₁, hne⟩ := (hf.active r₁).1 hact
      rw [hf.sn] at heq
      exact ⟨heq ▸ hsn r₁ hr₁ hne, r₁, hr₁, heq, hact₁⟩
  · rw [hhash]
    exact h.nodup.erase _
  · have hact_iff : (∃ r' ∈ insts.map f, r'.inst = j ∧ r'.Active ∧ j.threadNumber = tid) ↔
        j ∈ u.instList tid ∧ j ≠ r.inst := by
      rw [hmem, h.list]
      constructor
      · rintro ⟨r₁, hr₁, hj, hact, ht⟩
        obtain ⟨hact₁, hne⟩ := (hf.active r₁).1 hact
        rw [hf.inst] at hj
        exact ⟨⟨r₁, hr₁, hj, hact₁, ht⟩, hj ▸ hne⟩
      · rintro ⟨⟨r₁, hr₁, hj, hact, ht⟩, hne⟩
        exact ⟨r₁, hr₁, (hf.inst r₁).trans hj, (hf.active r₁).2 ⟨hact, hj ▸ hne⟩, ht⟩
    rw [hlist, hact_iff]
    by_cases htid : tid = r.inst.threadNumber
    · rw [htid, update_self, (h.list_nodup _).mem_erase_iff, and_comm]
    · rw [update_of_ne htid]
      refine ⟨fun hj => ⟨hj, fun heq => htid ?_⟩, fun hj => hj.1⟩
      obtain ⟨_, _, _, _, ht⟩ := (h.list tid j).1 hj
      rw [← ht, heq]
  · rw [hlist]
    by_cases htid : tid = r.inst.threadNumber
    · rw [htid, update_self]
      exact (h.sorted _).sublist erase_sublist
    · rw [update_of_ne htid]
      exact h.sorted tid
  · exact hf.barriers (k := fun i => i.isReadBarrier || i.isHtmCmd) h.loads fun r₁ hr₁ hne =>
      hloads _ (hsn r₁ hr₁ hne)
  · exact hf.barriers (k := fun i => i.isWriteBarrier || i.isHtmCmd) h.stores fun r₁ hr₁ hne =>
      hstores _ (hsn r₁ hr₁ hne)

theorem Edges.retire (h : Edges u insts) (hf : Retires i f)
    (hout : ∀ b ∈ insts, b.inst ≠ i → out u' b.sn = out u b.sn) : Edges u' (insts.map f) := by
  intro r' hr' hspec b' hb' hblocks
  obtain ⟨r, hr, rfl⟩ := mem_map.1 hr'
  obtain ⟨b, hb, rfl⟩ := mem_map.1 hb'
  obtain ⟨hact, hne⟩ := (hf.active b).1 hblocks.active
  have hthread := hblocks.thread
  have holder := hblocks.older
  have horders := hblocks.orders
  simp only [hf.inst, hf.sn] at hthread holder horders
  rw [hf.speculative] at hspec
  rw [hf.sn, hf.sn, hout b hb hne]
  exact h r hr hspec b hb ⟨hthread, holder, hact, horders⟩

def retired (u : MemDepUnit) (inst : DynInst) : MemDepUnit :=
  { u with
    instList := update u.instList inst.threadNumber ((u.instList inst.threadNumber).erase inst)
    memDepHash := u.memDepHash.erase inst.seqNum
    storeBarrierSNs :=
      if inst.isWriteBarrier || inst.isHtmCmd then u.storeBarrierSNs.erase inst.seqNum
        else u.storeBarrierSNs
    loadBarrierSNs :=
      if inst.isReadBarrier || inst.isHtmCmd then u.loadBarrierSNs.erase inst.seqNum
        else u.loadBarrierSNs }

/-- After the dependents were woken: what is left of `completeInst`. -/
theorem completed_ok (ht : Tracks u insts) (hr : r ∈ insts) :
    Ensures Bad (fun u' => u' = retired u r.inst)
      (u.completed r.inst >>= fun u => u.eraseStoreBarrier r.inst >>= fun u =>
        u.eraseLoadBarrier r.inst) := by
  simp only [MemDepUnit.completed, ensures_bind, ensures_ite, ensures_ok, ensures_error]
  refine ⟨fun hhash => ?_, fun _ => by simp [Bad]⟩
  have hact := ht.active hr hhash
  -- an active barrier is in its list, so that neither list is empty when it is erased from it
  have hstore : (r.inst.isWriteBarrier || r.inst.isHtmCmd) = true →
      u.storeBarrierSNs ≠ [] := fun hb =>
    ne_nil_of_mem (ht.stores r hr hact hb)
  have hload : (r.inst.isReadBarrier || r.inst.isHtmCmd) = true → u.loadBarrierSNs ≠ [] := fun hb =>
    ne_nil_of_mem (ht.loads r hr hact hb)
  unfold eraseStoreBarrier eraseLoadBarrier retired hasStoreBarrier hasLoadBarrier
  split <;> split <;> simp_all

theorem mem_erase_barrier {c : Bool} {m : Nat} (hne : n ≠ m) (hn : n ∈ l) :
    n ∈ if c = true then l.erase m else l := by
  split
  · exact (mem_erase_of_ne hne).2 hn
  · exact hn

theorem Inv.completeInst (h : Inv s) (hnil : s.unit.ready = []) (hr : r ∈ s.insts) :
    Ensures Bad (fun u' => Inv ⟨u', s.insts.map (Rec.complete r.inst)⟩)
      (s.unit.completeInst r.inst) := by
  have hretires := retires_complete r.inst
  refine (wakeDependents_ok h.counts (sn_mem_keys hr)).bind ?_
  rintro u₁ ⟨hframe, hcounts, hout, hhanded⟩
  have ht := h.tracks.frame hframe
  refine (completed_ok ht hr).imp ?_
  rintro u' rfl
  refine ⟨?_, ?_, ?_, ?_⟩
  · exact ht.retire hretires hr (fun _ => rfl)
      (fun r' hr' => (ht.squashed r' hr').trans (complete_squashed _ _).symm)
      rfl rfl (fun n hne hn => mem_erase_barrier hne hn) (fun n hne hn => mem_erase_barrier hne hn)
  · rw [hretires.keys]
    exact { hcounts with }
  · refine h.edges.retire hretires fun b hb hne => hout _ fun heq => hne ?_
    exact congrArg Rec.inst (h.tracks.eq_of_sn hb hr heq)
  · intro c i hi
    obtain ⟨r', hr', hinst, hsq, hdeps⟩ :=
      released_of_handed h.tracks.inst h.tracks.squashed hnil hhanded c i hi
    refine ⟨_, mem_map.2 ⟨r', hr', rfl⟩, (hretires.inst r').trans hinst,
      (complete_squashed _ _).trans hsq, ?_⟩
    rw [hretires.sn]
    exact hdeps

/-! ## Squash -/

theorem erase_last {l : List DynInst} (h : (l ++ [i]).Nodup) :
    (l ++ [i]).dropLast = (l ++ [i]).erase i := by
  have hnot : i ∉ l := fun hi => (nodup_append.1 h).2.2 i hi i mem_cons_self rfl
  rw [dropLast_concat, erase_append_right _ hnot, erase_cons_head, append_nil]

/-- The records of the instructions `l` are marked. -/
def Rec.markAll (l : List DynInst) (r : Rec) : Rec :=
  if r.inst ∈ l then { r with squashed := true } else r

theorem map_markAll_cons (l : List DynInst) :
    (insts.map (Rec.mark i)).map (Rec.markAll l) = insts.map (Rec.markAll (i :: l)) := by
  rw [map_map]
  refine map_congr_left fun r _ => ?_
  simp only [Function.comp, Rec.markAll, (retires_mark i).inst, mem_cons]
  unfold Rec.mark
  by_cases hi : r.inst = i
  · by_cases hl : r.inst ∈ l
    · simp [hi]
    · simp [hi]
  · simp [hi]

theorem Inv.squashOne (h : Inv s) (hnil : s.unit.ready = []) {l : List DynInst}
    (hl : s.unit.instList tid = l ++ [i]) :
    ∃ u', s.unit.squashOne tid i = .ok u' ∧ Inv ⟨u', s.insts.map (Rec.mark i)⟩ ∧ u'.ready = [] ∧
      u'.instList tid = l := by
  have ht := h.tracks
  have hi : i ∈ s.unit.instList tid := hl ▸ mem_append_right l mem_cons_self
  obtain ⟨r, hr, rfl, hact, rfl⟩ := (ht.list tid i).1 hi
  have hnodup := ht.list_nodup r.inst.threadNumber
  have hhash : r.inst.seqNum ∈ s.unit.memDepHash := (ht.hash _).2 ⟨r, hr, rfl, hact⟩
  have hretires := retires_mark r.inst
  let u₁ := s.unit.modify r.inst.seqNum fun e => { e with squashed := true }
  have hinst : ∀ n, (u₁.entries n).inst = (s.unit.entries n).inst :=
    entries_modify_field MemDepEntry.inst rfl
  have hout : out u₁ = out s.unit := out_modify_of_eq rfl
  have hself : u₁.entries r.inst.seqNum = { s.unit.entries r.inst.seqNum with squashed := true } :=
    entries_modify_self _
  have hother : ∀ n, n ≠ r.inst.seqNum → u₁.entries n = s.unit.entries n := fun n hn =>
    entries_modify_of_ne hn
  have hcounts : Counts (keys s.insts) u₁ := h.counts.modify (sn_mem_keys hr) rfl rfl
  rw [MemDepUnit.squashOne, if_pos hhash]
  refine ⟨_, rfl, ⟨?_, ?_, ?_, fun c j hj => ?_⟩, hnil, ?_⟩
  · refine ht.retire hretires hr hinst (fun r' hr' => ?_) rfl ?_
      (fun n hne hn => (mem_erase_of_ne hne).2 hn) (fun n hne hn => (mem_erase_of_ne hne).2 hn)
    · by_cases hn : r'.sn = r.inst.seqNum
      · have heq : r' = r := ht.eq_of_sn hr' hr hn
        subst heq
        refine (congrArg MemDepEntry.squashed hself).trans ?_
        simp [Rec.mark]
      · have hne : r'.inst ≠ r.inst := fun heq => hn (congrArg DynInst.seqNum heq)
        refine (congrArg MemDepEntry.squashed (hother _ hn)).trans ?_
        rw [ht.squashed r' hr', Rec.mark, if_neg hne]
    · rw [hl] at hnodup ⊢
      rw [← erase_last hnodup, ← hl]
      rfl
  · rw [hretires.keys]
    exact { hcounts with }
  · exact h.edges.retire hretires fun b _ _ => congrFun hout b.sn
  · have hnone : (c, j) ∈ s.unit.ready := hj
    rw [hnil] at hnone
    cases hnone
  · change update s.unit.instList _ (s.unit.instList r.inst.threadNumber).dropLast _ = l
    rw [update_self, hl, dropLast_concat]

/-- The loop of `squash`: the youngest instructions `l` of the thread, youngest first. -/
theorem Inv.squashLoop (h : Inv s) (hnil : s.unit.ready = []) {rest l : List DynInst}
    (hl : s.unit.instList tid = rest ++ l.reverse) :
    ∃ u', l.foldlM (fun u inst => u.squashOne tid inst) s.unit = .ok u' ∧
      Inv ⟨u', s.insts.map (Rec.markAll l)⟩ := by
  induction l generalizing s with
  | nil =>
    have hnone : s.insts.map (.markAll []) = s.insts := by
      refine (map_congr_left fun r _ => ?_).trans (map_id s.insts)
      exact if_neg not_mem_nil
    rw [hnone]
    exact ⟨s.unit, rfl, h⟩
  | cons i l ih =>
    rw [reverse_cons, ← append_assoc] at hl
    obtain ⟨u₁, hone, h₁, hnil₁, hl₁⟩ := h.squashOne hnil hl
    obtain ⟨u', hrun, h'⟩ := ih h₁ hnil₁ hl₁
    rw [map_markAll_cons] at h'
    exact ⟨u', by rw [foldlM_cons, hone, ok_bind, hrun], h'⟩

theorem mem_takeWhile_reverse {l : List DynInst} (h : l.Pairwise fun i i' => i.seqNum < i'.seqNum)
    (bound : Nat) :
    i ∈ l.reverse.takeWhile (fun i => decide (bound < i.seqNum)) ↔ i ∈ l ∧ bound < i.seqNum := by
  have hcut : l.reverse.Pairwise fun i i' =>
      decide (bound < i'.seqNum) = true → decide (bound < i.seqNum) = true :=
    pairwise_reverse.2 (h.imp fun hlt hi => decide_eq_true (lt_trans (of_decide_eq_true hi) hlt))
  rw [takeWhile_eq_filter hcut, mem_filter, mem_reverse, decide_eq_true_iff]

theorem map_squash_eq (ht : Tracks u insts) (squashedNum tid : Nat) :
    insts.map
      (Rec.markAll ((u.instList tid).reverse.takeWhile fun i => decide (squashedNum < i.seqNum))) =
      insts.map (Rec.squash squashedNum tid) := by
  refine map_congr_left fun r hr => ?_
  have hiff :
      r.inst ∈ (u.instList tid).reverse.takeWhile (fun i => decide (squashedNum < i.seqNum)) ↔
      r.Active ∧ r.inst.threadNumber = tid ∧ squashedNum < r.sn := by
    rw [mem_takeWhile_reverse (ht.sorted tid), ht.list]
    constructor
    · rintro ⟨⟨r', hr', heq, hact, htid⟩, hlt⟩
      have hrr : r' = r := ht.eq_of_sn hr' hr (congrArg DynInst.seqNum heq)
      exact ⟨hrr ▸ hact, htid, hlt⟩
    · rintro ⟨hact, htid, hlt⟩
      exact ⟨⟨r, hr, rfl, hact, htid⟩, hlt⟩
  unfold Rec.markAll Rec.squash
  simp only [hiff, Rec.Active]
  cases hsq : r.squashed with
  | false => simp
  | true =>
    -- a squashed record is not in the list, and marking it again changes nothing
    simp only [Bool.true_eq_false, and_false, false_and, if_false]
    split
    · rw [← hsq]
    · rfl

theorem Inv.squash (h : Inv s) (hnil : s.unit.ready = []) (squashedNum tid : Nat) :
    Ensures Bad (fun u' => Inv ⟨u', s.insts.map (Rec.squash squashedNum tid)⟩)
      (s.unit.squash squashedNum tid) := by
  let u₀ : MemDepUnit := { s.unit with
    instsToReplay := s.unit.instsToReplay.filter fun i =>
      !(i.threadNumber = tid && squashedNum < i.seqNum) }
  have h₀ : Inv { s with unit := u₀ } :=
    h.hand hnil { Frame.refl _ with } { h.counts with } rfl fun _ _ hi => .inl hi
  let young := (u₀.instList tid).reverse.takeWhile fun i => decide (squashedNum < i.seqNum)
  have hlist : u₀.instList tid =
      ((u₀.instList tid).reverse.dropWhile fun i => decide (squashedNum < i.seqNum)).reverse ++
        young.reverse := by
    rw [← reverse_append, takeWhile_append_dropWhile, reverse_reverse]
  obtain ⟨u', hrun, h'⟩ := h₀.squashLoop hnil hlist
  rw [map_squash_eq h₀.tracks] at h'
  have hresult : s.unit.squash squashedNum tid = .ok u' := hrun
  rw [hresult]
  exact .ok h'

/-! ## Insertion -/

theorem entries_newEntry_self : (u.newEntry inst).entries inst.seqNum = { inst } := update_self ..

theorem entries_newEntry_of_ne (h : n ≠ inst.seqNum) : (u.newEntry inst).entries n = u.entries n :=
  update_of_ne h ..

theorem out_newEntry (hc : Counts S u) (hsn : inst.seqNum ∉ S) : out (u.newEntry inst) = out u := by
  funext n
  by_cases hn : n = inst.seqNum
  · rw [hn, out, out, hc.fresh _ hsn, entries_newEntry_self]
  · rw [out, out, entries_newEntry_of_ne hn]

theorem Counts.newEntry (hc : Counts S u) (hsn : inst.seqNum ∉ S) :
    Counts (insert inst.seqNum S) (u.newEntry inst) := by
  have hnil : out u inst.seqNum = [] := by rw [out, hc.fresh _ hsn]
  refine ⟨fun n => ?_, fun n hn => ?_⟩
  · rw [out_newEntry hc hsn, owed_insert hsn hnil, ← hc.deps]
    by_cases hn : n = inst.seqNum
    · rw [hn, hc.fresh _ hsn, entries_newEntry_self]
    · rw [entries_newEntry_of_ne hn]
  · obtain ⟨hne, hnS⟩ := not_or.1 (fun h => hn (Finset.mem_insert.2 h))
    rw [entries_newEntry_of_ne hne, hc.fresh n hnS]

/-- `p` was put on the lists of `l`. -/
structure Linked (S : Finset Nat) (p : Nat) (l : List Nat) (u u' : MemDepUnit) : Prop where
  frame : Frame u u'
  ready : u'.ready = u.ready
  memDeps : ∀ n, (u'.entries n).memDeps = (u.entries n).memDeps
  owed : ∀ n, owed S (out u') n = owed S (out u) n + if n = p then l.length else 0
  keeps : ∀ n m, m ∈ out u n → m ∈ out u' n
  on : ∀ q ∈ l, p ∈ out u' q
  other : ∀ n, n ∉ S → u'.entries n = u.entries n

theorem addDependents_linked (hl : ∀ q ∈ l, q ∈ S) :
    Linked S p l u (l.foldl (fun u store_entry => u.addDependent p store_entry) u) := by
  induction l generalizing u with
  | nil =>
    refine ⟨.refl u, rfl, fun _ => rfl, fun n => ?_, fun _ _ hm => hm, nofun, fun _ _ => rfl⟩
    rw [length_nil, ite_self]
    rfl
  | cons q l ih =>
    have hq : q ∈ S := hl q mem_cons_self
    have hout : out (u.addDependent p q) = update (out u) q (out u q ++ [p]) := out_modify
    have hgrow : ∀ n m, m ∈ out u n → m ∈ out (u.addDependent p q) n := by
      intro n m hm
      rw [hout]
      by_cases hn : n = q
      · subst hn
        rw [update_self]
        exact mem_append_left _ hm
      · rwa [update_of_ne hn]
    have hself : p ∈ out (u.addDependent p q) q := by
      rw [hout, update_self]
      exact mem_append_right _ mem_cons_self
    have htail := ih (u := u.addDependent p q) fun q' hq' => hl q' (mem_cons_of_mem _ hq')
    rw [foldl_cons]
    refine ⟨.trans (.modify rfl rfl) htail.frame, htail.ready, fun n => ?_, fun n => ?_,
      fun n m hm => ?_, ?_,
      fun n hn => ?_⟩
    · rw [htail.memDeps]
      exact entries_modify_field MemDepEntry.memDeps rfl n
    · rw [htail.owed, hout, owed_push hq, length_cons]
      by_cases hn : n = p
      · simp only [if_pos hn]
        omega
      · simp only [if_neg hn, add_zero]
    · exact htail.keeps n m (hgrow n m hm)
    · exact forall_mem_cons.2 ⟨htail.keeps _ _ hself, htail.on⟩
    · have hne : n ≠ q := fun heq => hn (heq ▸ hq)
      rw [htail.other n hn]
      exact entries_modify_of_ne hne

/-- The unit after `link`: the new entry is on the lists of `l`, and handed over only if
there are none. -/
structure Joined (S : Finset Nat) (p : Nat) (l : List Nat) (u u' : MemDepUnit) : Prop where
  frame : Frame u u'
  counts : Counts S u'
  keeps : ∀ n m, m ∈ out u n → m ∈ out u' n
  on : ∀ q ∈ l, p ∈ out u' q
  handed : Handed (fun c q => q ∈ S ∧ (Caller.Waits c → (u'.entries q).memDeps = 0)) u u'

theorem markReady_frame (u : MemDepUnit) (p : Nat) : Frame u (u.markReady readyToIssue p) := by
  unfold markReady
  split
  · exact .modify rfl rfl
  · exact .refl u

theorem markReady_counts (hc : Counts S u) (hp : p ∈ S) (readyToIssue : Bool) :
    Counts S (u.markReady readyToIssue p) := by
  unfold markReady
  split
  · exact hc.modify hp rfl rfl
  · exact hc

theorem markReady_out (u : MemDepUnit) (p : Nat) :
    out (u.markReady readyToIssue p) = out u ∧ (u.markReady readyToIssue p).ready = u.ready := by
  unfold markReady
  split
  · exact ⟨out_modify_of_eq rfl, rfl⟩
  · exact ⟨rfl, rfl⟩

theorem link_ok (hc : Counts S u) (hp : p ∈ S) (hzero : (u.entries p).memDeps = 0)
    (hsq : (u.entries p).squashed = false)
    (readyToIssue : Bool) (hl : ∀ q ∈ l, q ∈ S) :
    ∃ u', u.link readyToIssue p l = .ok u' ∧ Joined S p l u u' := by
  have hframe := markReady_frame readyToIssue u p
  have hcounts := markReady_counts hc hp readyToIssue
  obtain ⟨hout, hready⟩ := markReady_out readyToIssue u p
  unfold link
  split
  · rename_i hnil
    subst hnil
    rw [if_neg (not_not.2 hzero)]
    split
    · rw [moveToReady_ok _ ((hframe.squashed p).trans hsq)]
      have hzero' : ((u.markReady readyToIssue p).entries p).memDeps = 0 := by
        rw [hcounts.deps, hout, ← hc.deps, hzero]
      refine ⟨_, rfl, { hframe with },
        { hcounts with }, fun n m hm => ?_, nofun, ?_⟩
      · change m ∈ out (u.markReady readyToIssue p) n
        rwa [hout]
      · exact handed_one hframe hready hsq ⟨hp, fun _ => hzero'⟩
    · exact ⟨u, rfl, .refl u, hc, fun _ _ hm => hm, nofun, .refl _ u⟩
  · have hlinked := addDependents_linked (p := p) (u := u.markReady readyToIssue p) hl
    refine ⟨_, rfl, (hframe.trans hlinked.frame).trans (.modify rfl rfl),
      ⟨fun n => ?_, fun n hn => ?_⟩, fun n m hm => ?_,
      fun q hq => ?_, fun c i hi => ?_⟩
    · rw [out_modify_of_eq rfl, hlinked.owed, ← hcounts.deps]
      by_cases hn : n = p
      · subst hn
        rw [entries_modify_self, if_pos rfl, hcounts.deps, hout, ← hc.deps, hzero, zero_add]
      · rw [entries_modify_of_ne hn, if_neg hn, add_zero, hlinked.memDeps]
    · have hne : n ≠ p := fun heq => hn (heq ▸ hp)
      rw [entries_modify_of_ne hne, hlinked.other n hn, hcounts.fresh n hn]
    · rw [out_modify_of_eq rfl]
      refine hlinked.keeps n m ?_
      rwa [hout]
    · rw [out_modify_of_eq rfl]
      exact hlinked.on q hq
    · exact .inl (hready ▸ hlinked.ready ▸ hi)

theorem insertBarrierSN_eq (u : MemDepUnit) (inst : DynInst) : u.insertBarrierSN inst = { u with
    loadBarrierSNs :=
      if inst.isReadBarrier || inst.isHtmCmd then u.loadBarrierSNs.insert inst.seqNum
        else u.loadBarrierSNs
    storeBarrierSNs :=
      if inst.isWriteBarrier || inst.isHtmCmd then u.storeBarrierSNs.insert inst.seqNum
        else u.storeBarrierSNs } := by
  unfold insertBarrierSN
  split <;> split <;> rfl

theorem mem_insert_barrier {c : Bool} {m : Nat} (h : n ∈ l ∨ c = true ∧ n = m) :
    n ∈ if c = true then l.insert m else l := by
  split <;> simp_all [or_comm]

theorem Next.not_mem_keys (h : Next insts inst) : inst.seqNum ∉ keys insts := by
  intro hmem
  obtain ⟨r, hr, heq⟩ := mem_keys.1 hmem
  exact (h r hr).1 heq

theorem keys_cons (r : Rec) : keys (r :: insts) = insert r.sn (keys insts) := by
  rw [keys, map_cons, toFinset_cons, keys]

theorem Tracks.insert (h : Tracks u insts) (hnext : Next insts r.inst) (hact : r.Active)
    (hf : Frame (u.newEntry r.inst) u') :
    Tracks (u'.insertBarrierSN r.inst) (r :: insts) := by
  rw [insertBarrierSN_eq]
  have hne : ∀ r' ∈ insts, r'.sn ≠ r.inst.seqNum := fun r' hr' => (hnext r' hr').1
  have hin : ∀ tid j, j ∈ u.instList tid → j.seqNum ≠ r.inst.seqNum ∧
      (j.threadNumber = r.inst.threadNumber → j.seqNum < r.inst.seqNum) := by
    intro tid j hj
    obtain ⟨r', hr', rfl, -⟩ := (h.list tid j).1 hj
    exact hnext r' hr'
  have hnew : ∀ tid, (u.newEntry r.inst).instList tid =
      if tid = r.inst.threadNumber then u.instList tid ++ [r.inst] else u.instList tid := by
    intro tid
    simp only [MemDepUnit.newEntry, Function.update_apply]
    split <;> simp_all
  refine ⟨pairwise_cons.2 ⟨hnext, h.order⟩, ?_, ?_, fun n => ?_, ?_, fun tid j => ?_, fun tid => ?_,
    ?_, ?_⟩ <;> dsimp only
  · refine forall_mem_cons.2 ⟨?_, fun r' hr' => ?_⟩
    · rw [Rec.sn, hf.inst, entries_newEntry_self]
    · rw [hf.inst, entries_newEntry_of_ne (hne r' hr'), h.inst r' hr']
  · refine forall_mem_cons.2 ⟨?_, fun r' hr' => ?_⟩
    · rw [Rec.sn, hf.squashed, entries_newEntry_self, hact.2]
    · rw [hf.squashed, entries_newEntry_of_ne (hne r' hr'), h.squashed r' hr']
  · rw [hf.hash]
    change n ∈ u.memDepHash ++ [r.inst.seqNum] ↔ _
    rw [mem_append, mem_singleton, h.hash, or_comm, exists_mem_cons_iff]
    refine or_congr ⟨fun heq => ⟨heq.symm, hact⟩, fun hr => hr.1.symm⟩ .rfl
  · rw [hf.hash]
    refine nodup_append.2 ⟨h.nodup, nodup_singleton _, fun n hn m hm => ?_⟩
    obtain ⟨r', hr', rfl, -⟩ := (h.hash n).1 hn
    rw [mem_singleton] at hm
    exact hm ▸ hne r' hr'
  · rw [hf.list, hnew, exists_mem_cons_iff, ← h.list]
    by_cases htid : tid = r.inst.threadNumber
    · rw [if_pos htid, mem_append, mem_singleton, or_comm]
      refine or_congr ⟨fun hj => ⟨hj.symm, hact, hj ▸ htid.symm⟩, fun hj => hj.1.symm⟩ .rfl
    · rw [if_neg htid]
      refine ⟨.inr, ?_⟩
      rintro (⟨rfl, -, ht⟩ | hj)
      · exact absurd ht.symm htid
      · exact hj
  · rw [hf.list, hnew]
    by_cases htid : tid = r.inst.threadNumber
    · rw [if_pos htid]
      refine pairwise_append.2 ⟨h.sorted tid, pairwise_singleton _ _, fun j hj j' hj' => ?_⟩
      rw [mem_singleton] at hj'
      obtain ⟨r', -, -, -, ht⟩ := (h.list tid j).1 hj
      exact hj' ▸ (hin tid j hj).2 (ht.trans htid)
    · rw [if_neg htid]
      exact h.sorted tid
  · refine forall_mem_cons.2 ⟨fun _ hb => ?_, fun r' hr' hact' hb => ?_⟩
    · exact mem_insert_barrier (.inr ⟨hb, rfl⟩)
    · exact mem_insert_barrier (.inl (hf.loads ▸ h.loads r' hr' hact' hb))
  · refine forall_mem_cons.2 ⟨fun _ hb => ?_, fun r' hr' hact' hb => ?_⟩
    · exact mem_insert_barrier (.inr ⟨hb, rfl⟩)
    · exact mem_insert_barrier (.inl (hf.stores ▸ h.stores r' hr' hact' hb))

/-- A barrier that blocks the new instruction is among the entries that it is to wait for. -/
theorem Tracks.mem_producing (h : Tracks u insts) {b : Rec} (hb : b ∈ insts) (hblocks : Blocks b r)
    (dep : Nat)
    (hcovered : (r.inst.isLoad || r.inst.isAtomic) = true →
      (r.inst.isStore || r.inst.isAtomic) = true →
      u.loadBarrierSNs = [] ∨ u.storeBarrierSNs ⊆ u.loadBarrierSNs) :
    b.sn ∈ (u.newEntry r.inst).producingStores r.inst dep := by
  have hload : b.inst.isReadBarrier = true → b.sn ∈ u.loadBarrierSNs := fun hr =>
    h.loads b hb hblocks.active (by rw [hr, Bool.true_or])
  have hstore : b.inst.isWriteBarrier = true → b.sn ∈ u.storeBarrierSNs := fun hw =>
    h.stores b hb hblocks.active (by rw [hw, Bool.true_or])
  have hhasLoad : (u.newEntry r.inst).hasLoadBarrier = true ↔ u.loadBarrierSNs ≠ [] := by
    simp [hasLoadBarrier, MemDepUnit.newEntry]
  have hhasStore : (u.newEntry r.inst).hasStoreBarrier = true ↔ u.storeBarrierSNs ≠ [] := by
    simp [hasStoreBarrier, MemDepUnit.newEntry]
  unfold producingStores
  rcases hblocks.orders with ⟨hl, hr⟩ | ⟨hs, hw⟩
  · have hmem := hload hr
    rw [if_pos (by rw [hl, hhasLoad.2 (ne_nil_of_mem hmem)]; rfl)]
    exact hmem
  · have hmem := hstore hw
    split
    · -- the load barriers are taken, so the store barriers must be among them
      rename_i hfirst
      obtain ⟨hl, hsome⟩ := Bool.and_eq_true_iff.1 hfirst
      rcases hcovered hl hs with hnil | hsub
      · exact absurd hnil (hhasLoad.1 hsome)
      · exact hsub hmem
    · rw [if_pos (by rw [hs, hhasStore.2 (ne_nil_of_mem hmem)]; rfl)]
      exact hmem

theorem checkType_ensures (inst : DynInst) : Ensures Bad (fun _ => True) (checkType inst) := by
  simp only [checkType, ensures_ite, ensures_ok, ensures_error]
  simp [Bad]

/-- A new record: what it waits for is on the lists, if it has to wait. -/
theorem Inv.join (h : Inv s) (hnil : s.unit.ready = []) (hnext : Next s.insts r.inst)
    (hact : r.Active)
    (hj : Joined (BarrierOrder.keys (r :: s.insts)) r.sn l (s.unit.newEntry r.inst) u')
    (hon : r.speculative = true → ∀ b ∈ s.insts, Blocks b r → b.sn ∈ l) :
    Inv ⟨u'.insertBarrierSN r.inst, r :: s.insts⟩ := by
  have hold : out (s.unit.newEntry r.inst) = out s.unit := out_newEntry h.counts hnext.not_mem_keys
  have ht := h.tracks.insert hnext hact hj.frame
  rw [insertBarrierSN_eq] at ht ⊢
  refine ⟨ht, { hj.counts with }, ?_, ?_⟩
  · intro r' hr' hspec b hb hblocks
    rcases mem_cons.1 hb with rfl | hb'
    · -- the new instruction is younger than all of its thread
      rcases mem_cons.1 hr' with rfl | hr''
      · exact absurd hblocks.older (lt_irrefl _)
      · have hlt := (hnext r' hr'').2 hblocks.thread.symm
        exact absurd hblocks.older (Nat.not_lt_of_lt hlt)
    · rcases mem_cons.1 hr' with rfl | hr''
      · exact hj.on b.sn (hon hspec b hb' hblocks)
      · refine hj.keeps _ _ ?_
        rw [hold]
        exact h.edges r' hr'' hspec b hb' hblocks
  · exact released_of_handed (fun r' hr' => (hj.frame.inst _).symm.trans (ht.inst r' hr'))
      (fun r' hr' => (hj.frame.squashed _).symm.trans (ht.squashed r' hr')) hnil hj.handed

theorem Inv.counts_newEntry (h : Inv s) (hnext : Next s.insts r.inst) :
    Counts (BarrierOrder.keys (r :: s.insts)) (s.unit.newEntry r.inst) := by
  rw [keys_cons]
  exact h.counts.newEntry hnext.not_mem_keys

section

variable (h : Inv s) (hnil : s.unit.ready = []) (hnext : Next s.insts inst)
include h hnil hnext

theorem Inv.insert (readyToIssue : Bool) (dep : Nat)
    (hcovered : (inst.isLoad || inst.isAtomic) = true → (inst.isStore || inst.isAtomic) = true →
      s.unit.loadBarrierSNs = [] ∨ s.unit.storeBarrierSNs ⊆ s.unit.loadBarrierSNs) :
    Ensures Bad (fun u' => Inv ⟨u', { inst, speculative := true } :: s.insts⟩)
      (s.unit.insert inst readyToIssue dep) := by
  let r : Rec := { inst, speculative := true }
  have hhash : ∀ n, n ∈ (s.unit.newEntry inst).memDepHash ↔ n ∈ s.unit.memDepHash ∨
      n = inst.seqNum := fun n => by
    simp [MemDepUnit.newEntry]
  have hkeys : ∀ q ∈ ((s.unit.newEntry inst).producingStores inst dep).filter
      (· ∈ (s.unit.newEntry inst).memDepHash), q ∈ keys (r :: s.insts) := by
    intro q hq
    have hin := of_decide_eq_true (mem_filter.1 hq).2
    rcases (hhash q).1 hin with hold | rfl
    · obtain ⟨r', hr', hsn, -⟩ := (h.tracks.hash q).1 hold
      exact mem_keys.2 ⟨r', mem_cons_of_mem _ hr', hsn⟩
    · exact sn_mem_keys mem_cons_self
  obtain ⟨u', hlink, hjoined⟩ := link_ok (h.counts_newEntry hnext) (sn_mem_keys mem_cons_self)
    (congrArg MemDepEntry.memDeps entries_newEntry_self)
      (congrArg MemDepEntry.squashed entries_newEntry_self)
    readyToIssue hkeys
  have hinv : Inv ⟨u'.insertBarrierSN inst, r :: s.insts⟩ := by
    refine h.join hnil hnext ⟨rfl, rfl⟩ hjoined fun _ b hb hblocks => ?_
    refine mem_filter.2 ⟨h.tracks.mem_producing hb hblocks dep hcovered, ?_⟩
    exact decide_eq_true ((hhash _).2 (.inl ((h.tracks.hash _).2 ⟨b, hb, rfl, hblocks.active⟩)))
  dsimp only [Rec.sn, r] at hlink
  simp only [MemDepUnit.insert, hlink, ok_bind]
  exact (checkType_ensures inst).bind fun _ _ => .ok hinv

theorem Inv.insertBarrier : Inv ⟨s.unit.insertBarrier inst, { inst } :: s.insts⟩ := by
  refine h.join (r := { inst }) (l := []) hnil hnext ⟨rfl, rfl⟩ ?_ nofun
  exact ⟨.refl _, h.counts_newEntry hnext, fun _ _ hm => hm, nofun, .refl _ _⟩

theorem Inv.insertNonSpec :
    Ensures Bad (fun u' => Inv ⟨u', { inst } :: s.insts⟩) (s.unit.insertNonSpec inst) :=
  (checkType_ensures inst).bind fun _ _ => .ok (h.insertBarrier hnil hnext)

end

/-! ## Runs -/

theorem Inv.step {e : Ev} (h : Inv s) (hen : enabled s e) (hcov : Covered s e) :
    Ensures Bad Inv (step s e) := by
  have h₀ := h.start
  cases e with
  | insert inst readyToIssue dep =>
    exact (h₀.insert rfl hen readyToIssue dep hcov).bind fun _ hu => .ok hu
  | insertNonSpec inst => exact (h₀.insertNonSpec rfl hen).bind fun _ hu => .ok hu
  | insertBarrier inst => exact .ok (h₀.insertBarrier rfl hen)
  | regsReady inst => exact (h₀.regsReady rfl hen).bind fun _ hu => .ok hu
  | nonSpecInstReady inst => exact (h₀.nonSpecInstReady rfl hen).bind fun _ hu => .ok hu
  | reschedule inst =>
    exact .ok (h₀.hand rfl { Frame.refl _ with } { h₀.counts with } rfl
      fun _ _ hi => .inl hi)
  | replay => exact (h₀.replay rfl).bind fun _ hu => .ok hu
  | completeInst inst =>
    obtain ⟨r, hr, rfl⟩ := hen
    exact (h₀.completeInst rfl hr).bind fun _ hu => .ok hu
  | squash squashedNum tid => exact (h₀.squash rfl squashedNum tid).bind fun _ hu => .ok hu

theorem Inv.init : Inv {} := by
  refine ⟨⟨.nil, fun r hr => (nomatch hr), fun r hr => (nomatch hr), fun n => ?_, nodup_nil,
    fun tid j => ?_, fun _ => .nil, fun r hr => (nomatch hr), fun r hr => (nomatch hr)⟩,
    ⟨fun n => rfl, fun n _ => rfl⟩, fun r hr => (nomatch hr), fun c i hi => (nomatch hi)⟩
  · exact ⟨nofun, fun ⟨r, hr, _⟩ => (nomatch hr)⟩
  · exact ⟨nofun, fun ⟨r, hr, _⟩ => (nomatch hr)⟩

/-- **Barrier order.** Nothing is handed over that an outstanding older barrier orders, and nothing
that was squashed. -/
theorem barriers_order {x : Except Fault Sys} (hr : (machine.under Covered).Reachable x) :
    (∀ s, x = .ok s → Ordered s) ∧ ∀ e, x = .error e → ¬ Bad e := by
  obtain ⟨hinv, havoids⟩ := Machine.ensured (I := Inv)
    (fun s hs => by cases hs; exact .init) (fun s e h hen hcov => h.step hen hcov) hr
  exact ⟨fun s hs => (hinv s hs).ordered, havoids⟩

instance (s : Sys) (e : Ev) : Decidable (enabled s e) := by
  cases e <;> dsimp only [enabled, Next] <;> infer_instance

instance (s : Sys) (e : Ev) : Decidable (Covered s e) := by
  cases e <;> dsimp only [Covered] <;> infer_instance

/-- A full barrier, then a load and an atomic: both wait, and its completion hands them over. -/
theorem barriers_order_two : ∃ s, (machine.under Covered).Reachable (.ok s) ∧
    s.unit.ready = [(.wakeDependents, { seqNum := 2, isLoad := true }),
      (.wakeDependents, { seqNum := 3, isAtomic := true })] ∧
    (∀ s', (Except.ok s : Except Fault Sys) = .ok s' → Ordered s') ∧
    ∀ e, (Except.ok s : Except Fault Sys) = .error e → ¬ Bad e := by
  have hr :=
    Machine.under_decided (M := machine) (P := fun s e => enabled s e ∧ Covered s e) (fun _ _ => id)
    [.insertBarrier { seqNum := 1, isReadBarrier := true, isWriteBarrier := true },
      .insert { seqNum := 2, isLoad := true } true 0,
        .insert { seqNum := 3, isAtomic := true } false 0,
      .regsReady { seqNum := 3, isAtomic := true }, .insert { seqNum := 4, isStore := true } true 0,
        .squash 3 0,
      .completeInst { seqNum := 1, isReadBarrier := true, isWriteBarrier := true }] rfl rfl
  obtain ⟨hord, hbad⟩ := barriers_order hr
  exact ⟨_, hr, rfl, hord, hbad⟩

/-- **An atomic passes a write barrier.** It is inserted after a read barrier and a write
barrier; when the read barrier completes it is handed over, and the write barrier has not
completed. -/
theorem atomic_passes_barrier : ∃ s, machine.lts.Reachable (.ok s) ∧
    s.unit.ready = [(.wakeDependents, { seqNum := 3, isAtomic := true })] ∧
    { inst := { seqNum := 3, isAtomic := true }, speculative := true } ∈ s.insts ∧
    { inst := { seqNum := 2, isWriteBarrier := true } } ∈ s.insts ∧
    Blocks { inst := { seqNum := 2, isWriteBarrier := true } }
      { inst := { seqNum := 3, isAtomic := true }, speculative := true } ∧ ¬ Ordered s := by
  have hr := Machine.lts_decided (M := machine) (P := enabled) (fun _ _ => id)
    [.insertBarrier { seqNum := 1, isReadBarrier := true },
      .insertBarrier { seqNum := 2, isWriteBarrier := true },
      .insert { seqNum := 3, isAtomic := true } true 0,
        .completeInst { seqNum := 1, isReadBarrier := true }] rfl rfl
  have hblocks : Blocks { inst := { seqNum := 2, isWriteBarrier := true } }
      { inst := { seqNum := 3, isAtomic := true }, speculative := true } :=
    ⟨rfl, by decide, ⟨rfl, rfl⟩, .inr ⟨rfl, rfl⟩⟩
  refine ⟨_, hr, rfl, by decide, by decide, hblocks, fun hord => ?_⟩
  obtain ⟨r, hrmem, hinst, -, hfree⟩ :=
    hord .wakeDependents { seqNum := 3, isAtomic := true } (by decide)
  obtain _ | ⟨_, _ | ⟨_, _ | ⟨_, ⟨⟩⟩⟩⟩ := hrmem
  · exact hfree rfl (.inr (.inr rfl)) _ (.tail _ (.head _)) hblocks
  · exact absurd hinst (by decide)
  · exact absurd hinst (by decide)

end Gem5Cxl.L3.BarrierOrder
