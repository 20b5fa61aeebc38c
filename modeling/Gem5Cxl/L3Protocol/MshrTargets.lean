import Gem5Cxl.L2Machine.Mshr

/-!
# The order in which an MSHR serves its targets

A run is one allocation of an MSHR with any sequence of the cache's calls on it.
`State.made` are the targets that have been allocated and `State.handedOut` those
that responses have served, each in order.

* `Ident`: what makes a target the one it is. Its packet's command may be
  replaced while it waits, and `markedPending` is cleared.
* `Effect`: what a call can do to the two lists.
* `InOrder`: those handed out, then `targets`, then `deferredTargets`, are the
  targets that were made, in order, the processor's and the snoops apart.
* `targets_in_order`: that holds in every run without locked reads.

A response with an invalidation serves the first target and the snoops but no
other processor target, so the two orders are kept apart and not together.
-/
namespace Gem5Cxl.L3.MshrTargets

open Core L1 L2.Mshrs L2.Mshrs.Mshr List

/-- `locked`: the packet is a `LockedRMWReadReq`, which no replacement makes or removes. -/
structure Ident where
  pkt : Nat
  source : Source
  recvTime : Nat
  readyTime : Nat
  order : Nat
  allocOnFill : Bool
  locked : Bool
deriving DecidableEq, Repr

def ident (t : Target) : Ident where
  pkt := t.pkt.id
  source := t.source
  recvTime := t.recvTime
  readyTime := t.readyTime
  order := t.order
  allocOnFill := t.allocOnFill
  locked := t.pkt.cmd = .lockedRMWReadReq

def ids (ts : List Target) : List Ident := ts.map ident

/-- The snoops among the targets, or the others. -/
def sel (snoops : Bool) (is : List Ident) : List Ident :=
  is.filter fun i => decide (i.source = .fromSnoop) == snoops

variable (b : Bool)

@[simp] theorem sel_append (is js : List Ident) : sel b (is ++ js) = sel b is ++ sel b js :=
  filter_append ..

@[simp] theorem sel_nil : sel b [] = [] := rfl

theorem sel_cons (i : Ident) (is : List Ident) :
    sel b (i :: is) = if decide (i.source = .fromSnoop) = b then i :: sel b is else sel b is := by
  simp only [sel, filter_cons, beq_iff_eq]

@[simp] theorem ids_nil : ids [] = [] := rfl

@[simp] theorem ids_cons (t : Target) (ts : List Target) : ids (t :: ts) = ident t :: ids ts := rfl

@[simp] theorem ids_append (ts us : List Target) : ids (ts ++ us) = ids ts ++ ids us :=
  map_append

structure State where
  mshr : Mshr
  tick : Nat := 0
  made : List Target := []
  handedOut : List Target := []

/-- The steps of a run: the cache's calls, those of the queue that send the MSHR's packet or will
send it again, and the passing of time. -/
inductive Label
  | call (c : Call)
  | markInService (pendingModifiedResp : Bool)
  | markPending
  | tick (t : Nat)

/-- `markPending` is the part of `MSHRQueue::markPending` that concerns the MSHR. -/
def step (s : State) : Label → Except Fault State
  | .call c => do
    let r ← s.mshr.call s.tick c
    .ok { s with
      mshr := r.mshr
      made := s.made ++ r.made
      handedOut := s.handedOut ++ r.handedOut }
  | .markInService b => do
    let mshr ← s.mshr.markInService b
    .ok { s with mshr }
  | .markPending =>
    if s.mshr.inService then .ok { s with mshr := { s.mshr with inService := false } }
    else .error (.assertion .inService)
  | .tick t => .ok { s with tick := t }

def unlocked : Call → Prop
  | .allocateTarget pkt _ _ _ => pkt.cmd ≠ .lockedRMWReadReq
  | .handleSnoop pkt _ _ => pkt.cmd ≠ .lockedRMWReadReq
  | _ => True

/-- There are no locked reads, and time does not go back. -/
def enabled (s : State) : Label → Prop
  | .call c => unlocked c
  | .tick t => s.tick ≤ t
  | _ => True

instance : DecidablePred unlocked := fun c => by
  cases c <;> dsimp only [unlocked] <;> infer_instance

instance (s : State) : DecidablePred (enabled s) := fun c => by
  cases c <;> dsimp only [enabled] <;> infer_instance

/-- A run starts with the allocation of an MSHR that has no targets. -/
def machine : Machine State Label Fault where
  init s := ∃ (m : Mshr) (blkAddr blkSize whenReady order : Nat) (target : MshrPacket) (fill : Bool),
    m.getNumTargets = 0 ∧ target.cmd ≠ .lockedRMWReadReq ∧
    m.allocate s.tick blkAddr blkSize target whenReady order fill = .ok s.mshr ∧
    s.made = [cpuTarget s.tick target whenReady order (firstSource target) true fill] ∧
    s.handedOut = []
  enabled := enabled
  step := step

/-- Of the snoops, and of the other targets: those handed out, those in `targets` and those
deferred are, in this order, the ones that were made. -/
def InOrder (s : State) : Prop :=
  ∀ snoops, sel snoops (ids s.handedOut ++ ids s.mshr.targets.list ++ ids s.mshr.deferredTargets.list) =
    sel snoops (ids s.made)

/-! ## Lists and flags

The flags decide which list a target goes to, but setting them moves no target. -/

section Flags

variable {l : TargetList} {t : Target}

theorem updateFlags_list {pkt : MshrPacket} {source : Source} {fill : Bool} :
    Yields (fun l' => l'.list = l.list) (l.updateFlags pkt source fill) := by
  simp [TargetList.updateFlags, TargetList.updateWriteFlags, TargetList.markWritten]

theorem populateFlags_list : Yields (fun l' => l'.list = l.list) l.populateFlags :=
  .foldlM (fun _ _ h => updateFlags_list.imp fun _ h' => h'.trans h) l.list rfl

theorem add_ids : Yields (fun l' => ids l'.list = ids l.list ++ [ident t]) (l.add t) := by
  simp only [TargetList.add, yields_bind, yields_ok]
  refine updateFlags_list.imp fun l' h => ?_
  rw [ids_append, h]
  rfl

theorem replacedCmd_locked (cmd : MemCmd) :
    decide (MshrPacket.replacedCmd cmd = .lockedRMWReadReq) = decide (cmd = .lockedRMWReadReq) := by
  cases cmd <;> rfl

theorem ident_replaceUpgrade (t : Target) :
    ident { t with pkt := t.pkt.replaceUpgrade } = ident t :=
  congrArg (fun b => { ident t with locked := b }) (replacedCmd_locked t.pkt.cmd)

theorem replaceUpgrades_ids (l : TargetList) : ids l.replaceUpgrades.list = ids l.list := by
  unfold TargetList.replaceUpgrades
  split
  · simp only [ids, map_map]
    exact map_congr_left fun t _ => ident_replaceUpgrade t
  · rfl

theorem clearDownstreamPending_ids (ts : List Target) :
    ids (TargetList.clearDownstreamPending ts) = ids ts := by
  simp only [ids, TargetList.clearDownstreamPending, map_map]
  rfl

end Flags

/-! ## What one call does -/

inductive Effect (m : Mshr) (r : Reply) : Prop
  | same (ht : ids r.mshr.targets.list = ids m.targets.list)
      (hd : ids r.mshr.deferredTargets.list = ids m.deferredTargets.list)
      (hmade : r.made = []) (hout : r.handedOut = [])
  | append (i : Ident) (hu : i.locked = false) (hi : i.source = .fromSnoop ∨ m.deferredTargets.list = [])
      (ht : ids r.mshr.targets.list = ids m.targets.list ++ [i])
      (hd : ids r.mshr.deferredTargets.list = ids m.deferredTargets.list)
      (hmade : ids r.made = [i]) (hout : r.handedOut = [])
  | defer (i : Ident) (hu : i.locked = false) (hi : i.source = .fromCPU)
      (ht : ids r.mshr.targets.list = ids m.targets.list)
      (hd : ids r.mshr.deferredTargets.list = ids m.deferredTargets.list ++ [i])
      (hmade : ids r.made = [i]) (hout : r.handedOut = [])
  | promote (moved : List Ident)
      (ht : ids r.mshr.targets.list = ids m.targets.list ++ moved)
      (hd : ids m.deferredTargets.list = moved ++ ids r.mshr.deferredTargets.list)
      (hmade : r.made = []) (hout : r.handedOut = [])
  | serve (ht : ∀ snoops, sel snoops (ids m.targets.list) =
        sel snoops (ids r.handedOut) ++ sel snoops (ids r.mshr.targets.list))
      (hkept : ids r.mshr.targets.list ⊆ ids m.targets.list)
      (hd : ids r.mshr.deferredTargets.list = ids m.deferredTargets.list) (hmade : r.made = [])

section Effect

variable {m m' : Mshr} {r : Reply} {tick : Nat} {response : MemCmd} {copy : Nat}
  {pred : Target → Except Fault Bool}

variable {pkt : MshrPacket} {order : Nat} {ts kept : List Target}

section

variable (hcmd : pkt.cmd ≠ .lockedRMWReadReq)
include hcmd

theorem allocateTarget_effect {whenReady : Nat} {fill : Bool} : Yields
    (fun m' =>
      Effect m { mshr := m', made := [cpuTarget tick pkt whenReady order .fromCPU true fill] })
      (m.allocateTarget tick pkt whenReady order fill) := by
  have hu : (ident (cpuTarget tick pkt whenReady order .fromCPU true fill)).locked = false :=
    decide_eq_false hcmd
  simp only [allocateTarget, yields_ite, yields_bind, yields_ok, yields_error, implies_true, true_and]
  refine fun _ front _ => ⟨fun _ => add_ids.imp fun l hl => .defer _ hu rfl rfl ?_ rfl rfl,
    fun hdefers => add_ids.imp fun l hl =>
      .append (ident (cpuTarget tick pkt whenReady order .fromCPU (!m.inService) fill)) hu (.inr ?_) hl rfl rfl rfl⟩
  · rw [hl]
    congr 2
    -- the command may have been replaced
    split
    · exact ident_replaceUpgrade (cpuTarget tick pkt whenReady order .fromCPU true fill)
    · rfl
  · simp only [defers, Bool.or_eq_true, not_or, Bool.not_eq_true, Bool.not_eq_false',
      List.isEmpty_iff] at hdefers
    exact hdefers.1.2

/-- `m'` is the MSHR once upgrades have been replaced among its deferred targets. -/
theorem snoopPending_effect (ht : ids m'.targets.list = ids m.targets.list)
    (hd : ids m'.deferredTargets.list = ids m.deferredTargets.list) :
    Yields (fun n => Effect m { mshr := n.mshr, made := n.saved.toList })
      (m'.snoopPending tick pkt order copy) := by
  simp only [snoopPending, saveSnoop, yields_ite, yields_bind, yields_ok]
  refine ⟨fun _ pkt' _ => add_ids.imp fun l hl => ?_, fun _ => ?_⟩
  · exact ⟨fun _ => .append _ (decide_eq_false hcmd) (.inl rfl) (ht ▸ hl) hd rfl rfl,
      fun _ => .append _ (decide_eq_false hcmd) (.inl rfl) (ht ▸ hl) hd rfl rfl⟩
  · exact ⟨fun _ => .same ht hd rfl rfl, fun _ => .same ht hd rfl rfl⟩

theorem handleSnoop_effect :
    Yields (fun n => Effect m { mshr := n.mshr, made := n.saved.toList })
      (m.handleSnoop tick pkt order copy) := by
  have hup : ∀ (b : Bool) (l : TargetList),
      ids (if b then l.replaceUpgrades else l).list = ids l.list := by
    intro b l
    cases b with
    | false => rfl
    | true => exact replaceUpgrades_ids l
  simp only [handleSnoop, yields_ite, yields_bind, yields_ok, yields_error, implies_true, true_and]
  exact fun _ _ _ => ⟨fun _ => .same (hup _ _) (hup _ _) rfl rfl, fun _ _ _ =>
    ⟨fun _ => .same rfl (hup _ _) rfl rfl, fun _ => snoopPending_effect hcmd rfl (hup _ _)⟩⟩

end

/-- A division of the targets keeps both orders. -/
def Divides (ts ready kept : List Target) : Prop :=
  (∀ snoops, sel snoops (ids ts) = sel snoops (ids ready) ++ sel snoops (ids kept)) ∧ kept ⊆ ts

theorem splitSnoops_divides (ts : List Target) :
    Yields (fun a => Divides ts a.1 a.2 ∧ sel false (ids a.1) = []) (splitSnoops ts) := by
  induction ts with
  | nil => exact yields_ok.2 ⟨⟨fun _ => rfl, .refl _⟩, rfl⟩
  | cons t ts ih =>
    cases hs : t.source with
    | fromPrefetcher => simp [splitSnoops, hs]
    | fromCPU =>
      have hsrc : (ident t).source = .fromCPU := hs
      simp only [splitSnoops, hs, yields_bind, yields_ok]
      refine ih.imp fun a h => ?_
      obtain ⟨⟨horder, hsub⟩, hnone⟩ := h
      refine ⟨⟨fun snoops => ?_, cons_subset_cons t hsub⟩, hnone⟩
      cases snoops with
      | false => simp [sel_cons, hsrc, horder, hnone]
      | true => simp [sel_cons, hsrc, horder]
    | fromSnoop =>
      have hsrc : (ident t).source = .fromSnoop := hs
      simp only [splitSnoops, hs, yields_bind, yields_ok]
      refine ih.imp fun a h => ?_
      obtain ⟨⟨horder, hsub⟩, hnone⟩ := h
      refine ⟨⟨fun snoops => ?_, subset_cons_of_subset t hsub⟩, ?_⟩
      · cases snoops with
        | false | true => simp [sel_cons, hsrc, horder]
      · simp [sel_cons, hsrc, hnone]

theorem splitAll_unlocked (hu : ∀ i ∈ ids ts, i.locked = false) : splitAll ts = (ts, []) := by
  induction ts with
  | nil => rfl
  | cons t ts ih =>
    have hcmd : t.pkt.cmd ≠ .lockedRMWReadReq := of_decide_eq_false (hu _ mem_cons_self)
    rw [splitAll, if_neg hcmd, ih fun i hi => hu i (mem_cons_of_mem _ hi)]

theorem serviceable_divides (hu : ∀ i ∈ ids ts, i.locked = false) :
    Yields (fun a => Divides ts a.1 a.2) (serviceable response ts) := by
  unfold serviceable
  split
  · cases ts with
    | nil => simp [splitFirst]
    | cons t ts =>
      have hcmd : t.pkt.cmd ≠ .lockedRMWReadReq := of_decide_eq_false (hu _ mem_cons_self)
      simp only [splitFirst, hcmd, if_false, yields_ite, yields_error, yields_bind, yields_ok, implies_true, true_and]
      refine fun _ => (splitSnoops_divides ts).imp fun a h => ?_
      obtain ⟨⟨horder, hsub⟩, -⟩ := h
      refine ⟨fun snoops => ?_, subset_cons_of_subset t hsub⟩
      simp only [ids_cons, sel_cons, horder]
      split
      · rfl
      · rfl
  · rw [splitAll_unlocked hu, yields_ok]
    exact ⟨fun snoops => by simp, nil_subset _⟩

theorem extract_effect (hu : ∀ i ∈ ids m.targets.list, i.locked = false) :
    Yields (fun a => Effect m { mshr := a.1, handedOut := a.2.list })
      (m.extractServiceableTargets response) := by
  simp only [extractServiceableTargets, yields_bind, yields_ok]
  refine (serviceable_divides hu).imp fun a h => ?_
  obtain ⟨horder, hsub⟩ := h
  refine populateFlags_list.imp fun l hl => populateFlags_list.imp fun l' hl' => .serve ?_ ?_ rfl rfl
  · simpa only [hl, hl'] using horder
  · rw [hl']
    exact map_subset ident hsub

/-! ### Promotion -/

theorem promotable_split (m : Mshr) :
    m.deferredTargets.list = m.promotable.1 ++ m.promotable.2 := by
  unfold promotable
  dsimp only
  split
  · split
    · exact (take_append_drop 1 _).symm
    · rfl
  · have hpre := takeWhile_prefix (fun t : Target => !t.pkt.isCacheMaintenance)
      (l := m.deferredTargets.list)
    exact (prefix_iff_eq_append.1 hpre).symm

theorem promoteDeferredTargets_effect :
    Yields (fun a => Effect m { mshr := a.1 }) (m.promoteDeferredTargets tick) := by
  have hsplit := promotable_split m
  simp only [promoteDeferredTargets, yields_ite, yields_bind, yields_ok]
  refine ⟨fun _ => .same rfl rfl rfl rfl, fun _ => populateFlags_list.imp fun l hl =>
    populateFlags_list.imp fun l' hl' front _ => .promote (ids m.promotable.1) ?_ ?_ rfl rfl⟩
  · rw [hl', ids_append]
  · rw [hl, ← ids_append, ← hsplit]

theorem splitIf_append (ts : List Target) :
    Yields (fun a => ts = a.1 ++ a.2) (splitIf pred ts) := by
  induction ts with
  | nil => exact yields_ok.2 rfl
  | cons t ts ih =>
    simp only [splitIf, yields_bind, yields_ite, yields_ok]
    refine fun b _ => ⟨fun _ => ih.imp fun a ha => ?_, fun _ => rfl⟩
    rw [cons_append, ← ha]

/-- `m'` is the MSHR once its targets need the block to be writable. -/
theorem promoteIf_effect (ht : m'.targets.list = m.targets.list)
    (hd : m'.deferredTargets.list = m.deferredTargets.list) :
    Yields (fun n => Effect m { mshr := n }) (m'.promoteIf pred) := by
  simp only [promoteIf, yields_ite, yields_bind, yields_ok, yields_error, implies_true, true_and]
  refine fun _ => (splitIf_append _).imp fun a ha => populateFlags_list.imp fun l hl =>
    .promote (ids a.1) ?_ ?_ rfl rfl
  · rw [ids_append, clearDownstreamPending_ids, ht]
  · rw [hl, ← ids_append, ← ha, hd]

theorem promoteReadable_effect : Yields (fun n => Effect m { mshr := n }) m.promoteReadable := by
  simp only [promoteReadable, yields_ite, yields_ok, yields_error, implies_true, true_and]
  exact ⟨fun _ => .same rfl rfl rfl rfl, fun _ _ => ⟨fun _ => .same rfl rfl rfl rfl, fun _ => promoteIf_effect rfl rfl⟩⟩

theorem promoteWritable_effect : Yields (fun n => Effect m { mshr := n }) m.promoteWritable := by
  simp only [promoteWritable, yields_ite, yields_bind, yields_ok, yields_error, implies_true, true_and]
  exact ⟨fun _ => .same rfl rfl rfl rfl, fun _ _ _ => ⟨fun _ => .same rfl rfl rfl rfl, fun _ _ =>
    ⟨fun _ => .same rfl rfl rfl rfl, fun _ _ => promoteIf_effect rfl rfl⟩⟩⟩

theorem call_effect {c : Call} (hc : unlocked c) (hu : ∀ i ∈ ids m.targets.list, i.locked = false) :
    Yields (Effect m) (m.call tick c) := by
  cases c with
  | markDownstreamPending =>
    simp only [Mshr.call, yields_ite, yields_ok, yields_error, implies_true, true_and]
    exact fun _ => .same rfl rfl rfl rfl
  | clearDownstreamPending =>
    simp only [Mshr.call, Mshr.clearDownstreamPending, yields_ite, yields_bind, yields_ok, yields_error, implies_true,
      and_true]
    exact fun _ => .same (clearDownstreamPending_ids _) rfl rfl rfl
  | forward b => exact yields_ok.2 (.same rfl rfl rfl rfl)
  | allocateTarget pkt whenReady order fill => simpa [Mshr.call] using allocateTarget_effect hc
  | handleSnoop pkt order copy => simpa [Mshr.call] using handleSnoop_effect hc
  | extractServiceableTargets response => simpa [Mshr.call] using extract_effect hu
  | promoteDeferredTargets => simpa [Mshr.call] using promoteDeferredTargets_effect
  | promoteReadable => simpa [Mshr.call] using promoteReadable_effect
  | promoteWritable => simpa [Mshr.call] using promoteWritable_effect

end Effect

/-! ## Runs -/

structure Inv (s : State) : Prop where
  unlocked : ∀ i ∈ ids s.mshr.targets.list ++ ids s.mshr.deferredTargets.list, i.locked = false
  deferred : ∀ i ∈ ids s.mshr.deferredTargets.list, i.source ≠ .fromSnoop
  order : InOrder s

section Inv

variable {s : State}

theorem sel_snoops {is : List Ident} (h : ∀ i ∈ is, i.source ≠ .fromSnoop) : sel true is = [] := by
  refine filter_eq_nil_iff.2 fun i hmem => ?_
  simp [h i hmem]

theorem Inv.call (hi : Inv s) {r : Reply} (he : Effect s.mshr r) :
    Inv { s with
      mshr := r.mshr, made := s.made ++ r.made, handedOut := s.handedOut ++ r.handedOut } := by
  obtain ⟨hu, hdef, horder⟩ := hi
  cases he with
  | same ht hd hmade hout =>
    refine ⟨by simpa only [ht, hd] using hu, by simpa only [hd] using hdef, ?_⟩
    intro b
    simpa [ht, hd, hmade, hout] using horder b
  | append i hl hsrc ht hd hmade hout =>
    refine ⟨?_, by simpa only [hd] using hdef, fun b => ?_⟩
    · rw [ht, hd, append_assoc]
      obtain ⟨hu₁, hu₂⟩ := forall_mem_append.1 hu
      exact forall_mem_append.2 ⟨hu₁, forall_mem_cons.2 ⟨hl, hu₂⟩⟩
    · -- a snoop may pass deferred targets, which are no snoops
      have hlast : sel b [i] ++ sel b (ids s.mshr.deferredTargets.list) =
          sel b (ids s.mshr.deferredTargets.list) ++ sel b [i] := by
        rcases hsrc with hsnoop | hnil
        · cases b with
          | false => simp [sel_cons, hsnoop]
          | true => rw [sel_snoops hdef, append_nil, nil_append]
        · rw [hnil, ids_nil, sel_nil, append_nil, nil_append]
      have h := horder b
      simp only [ht, hd, hout, ids_append, hmade, sel_append, ← h, append_assoc,
        append_nil, hlast]
  | defer i hl hsrc ht hd hmade hout =>
    refine ⟨?_, ?_, fun b => ?_⟩
    · rw [ht, hd, ← append_assoc]
      exact forall_mem_append.2 ⟨hu, forall_mem_singleton.2 hl⟩
    · rw [hd]
      refine forall_mem_append.2 ⟨hdef, forall_mem_singleton.2 ?_⟩
      rw [hsrc]
      decide
    · have h := horder b
      simp only [ht, hd, hout, ids_append, hmade, sel_append, ← h, append_assoc,
        append_nil]
  | promote moved ht hd hmade hout =>
    refine ⟨?_, fun i hi => hdef i (hd ▸ mem_append_right _ hi), fun b => ?_⟩
    · simpa only [ht, hd, append_assoc] using hu
    · simpa [ht, hd, hmade, hout] using horder b
  | serve ht hkept hd hmade =>
    refine ⟨fun i hi => hu i ?_, by simpa only [hd] using hdef, fun b => ?_⟩
    · rw [hd] at hi
      exact (mem_append.1 hi).elim (fun h => mem_append_left _ (hkept h))
        (mem_append_right _)
    · have h := horder b
      simp only [sel_append, ht b] at h
      simpa [hd, hmade] using h

theorem Inv.init (h : machine.init s) : Inv s := by
  obtain ⟨m, blkAddr, blkSize, whenReady, order, target, fill, hnone, hcmd, halloc, hmade, hout⟩ := h
  have hempty : m.targets.list = [] ∧ m.deferredTargets.list = [] := by
    simpa [getNumTargets] using hnone
  obtain ⟨targets, hadd, halloc⟩ := bind_eq_ok.1 halloc
  obtain ⟨first, -, halloc⟩ := bind_eq_ok.1 halloc
  split at halloc
  · have ht : ids s.mshr.targets.list = ids s.made := by
      rw [← Except.ok.inj halloc, hmade]
      refine (add_ids _ hadd).trans ?_
      simp [TargetList.init, TargetList.resetFlags, hempty.1]
    have hd : ids s.mshr.deferredTargets.list = [] := by
      rw [← Except.ok.inj halloc]
      simp [TargetList.init, TargetList.resetFlags, hempty.2]
    refine ⟨?_, by simp [hd], fun b => by simp [ht, hd, hout]⟩
    rw [ht, hd, hmade]
    simpa [ident, cpuTarget] using hcmd
  · cases halloc

theorem Inv.step (hi : Inv s) {l : Label} {s' : State} (he : enabled s l) (h : step s l = .ok s') :
    Inv s' := by
  cases l with
  | call c =>
    obtain ⟨r, hcall, h⟩ := bind_eq_ok.1 h
    cases h
    exact hi.call (call_effect he (fun i hmem => hi.unlocked i (mem_append_left _ hmem)) r hcall)
  | markInService b =>
    obtain ⟨m, hmark, h⟩ := bind_eq_ok.1 h
    cases h
    unfold Mshr.markInService at hmark
    split at hmark
    · cases hmark
    · have ht : ids m.targets.list = ids s.mshr.targets.list := by
        rw [← Except.ok.inj hmark]
        split
        · rfl
        · exact clearDownstreamPending_ids _
      have hd : m.deferredTargets.list = s.mshr.deferredTargets.list := by
        rw [← Except.ok.inj hmark]
      obtain ⟨hu, hdef, horder⟩ := hi
      exact ⟨by simpa only [ht, hd] using hu, by simpa only [hd] using hdef,
        fun b => by simpa only [ht, hd] using horder b⟩
  | markPending =>
    simp only [MshrTargets.step] at h
    split at h
    · cases h
      exact { hi with }
    · cases h
  | tick t =>
    cases h
    exact { hi with }

end Inv

/-- **The processor's targets are served in the order in which they came, each once, and so are
the snoops.** -/
theorem targets_in_order {s : State} (hr : machine.lts.Reachable (.ok s)) : InOrder s := by
  have hi : Inv s := Machine.invariant (fun s hs => .init hs) (fun s l s' hi he _ h => hi.step he h)
    (Machine.unguarded hr)
  exact hi.order

def first : State where
  mshr := {
    blkSize := 8
    targets := {
      list := [cpuTarget 0 { id := 0, cmd := .readReq } 0 0 .fromCPU false true]
      allocOnFill := true
      blkSize := 8
      canMergeWrites := false
      writesBitmap := List.replicate 8 false }
    deferredTargets := { blkSize := 8, writesBitmap := List.replicate 8 false } }
  made := [cpuTarget 0 { id := 0, cmd := .readReq } 0 0 .fromCPU true true]

/-- A second read joins the first, an invalidating snoop is kept, a third read is deferred. The
response with an invalidation then serves the first read and the snoop. -/
theorem targets_in_order_invalidated :
    ∃ s, machine.lts.Reachable (.ok s) ∧ (ids s.handedOut).map (·.pkt) = [0, 2] ∧
      (ids s.mshr.targets.list).map (·.pkt) = [1] ∧
      (ids s.mshr.deferredTargets.list).map (·.pkt) = [3] ∧ InOrder s := by
  have hinit : machine.init first :=
    ⟨{}, 0, 8, 0, 0, { id := 0, cmd := .readReq }, true, rfl, by decide, rfl, rfl, rfl⟩
  have hr := fun {y} => Machine.lts_decided (P := enabled) (fun _ _ => id)
    [.call (.allocateTarget { id := 1, cmd := .readReq } 1 1 true), .markInService false,
      .call (.handleSnoop { id := 9, cmd := .readExReq } 2 2),
      .call (.allocateTarget { id := 3, cmd := .readReq } 3 3 true),
      .call (.extractServiceableTargets .readRespWithInvalidate)]
    (y := y) hinit
  exact ⟨_, hr rfl, rfl, rfl, rfl, targets_in_order (hr rfl)⟩

end Gem5Cxl.L3.MshrTargets
