import Gem5Cxl.L2Machine.AbstractMem

/-!
# Store-conditionals at memory

A run is any sequence of accesses to a writeable memory. `State.history` is a
record of them, the last one first, each with the bytes it stored.

* `Reserved`: the last load-locked of a context was to this granule, and no
  access after it has stored a byte of the granule.
* `Inv`: every record of `lockedAddrList` stands for a reservation.
* `sc_atomic`: in every run whose accesses all meet `Meets`, a store-conditional
  reports success only with a reservation, and changes nothing if it reports
  failure.

`Meets` is needed. A store drops the records of the granule it starts in, though
it may reach into the next one, and swaps and atomic operations drop none
(`sc_not_atomic`).
-/
namespace Gem5Cxl.L3.StoreConditional

open Core L1 L2.AbstractMem L2.AbstractMem.AbstractMemory LockedAddr Machine
open List hiding after

structure Done where
  pkt : MemPacket
  stores : Nat → Option UInt8

/-- The memory performs the packet as a load-locked. -/
def loadLocked (pkt : MemPacket) : Bool := !ignores pkt && pkt.cmd.isRead && pkt.cmd.isLLSC

/-- The memory performs the packet as a store-conditional. -/
def storeConditional (pkt : MemPacket) : Bool := !ignores pkt && pkt.cmd.isWrite && pkt.cmd.isLLSC

/-- The 16-byte granule of an address. -/
def granule (a : Nat) : Nat := a / 16

structure State where
  memory : AbstractMemory
  history : List Done := []

def step (s : State) (pkt : MemPacket) : Except Fault State := do
  let o ← s.memory.plan pkt
  .ok { memory := s.memory.after o, history := ⟨pkt, o.stores⟩ :: s.history }

def machine : Machine State MemPacket Fault where
  init s := s.memory.writeable = true ∧ s.memory.lockedAddrList = [] ∧ s.history = []
  enabled _ _ := True
  step := step

/-! ## What is asked -/

/-- Of the accesses performed, the last load-locked of context `c` started in granule `g`, and
none after it stored a byte of `g`. -/
def Reserved (history : List Done) (c g : Nat) : Prop :=
  ∃ later d earlier, history = later ++ d :: earlier ∧
    loadLocked d.pkt = true ∧ d.pkt.contextId = some c ∧ granule d.pkt.addr = g ∧
    (∀ e ∈ later, ¬ (loadLocked e.pkt = true ∧ e.pkt.contextId = some c)) ∧
    ∀ e ∈ later, ∀ b, granule b = g → e.stores b = none

/-- What a store-conditional reports is true. -/
structure Atomic (s : State) (pkt : MemPacket) (m : AbstractMemory) (pkt' : MemPacket) : Prop where
  success : pkt'.extraData = some 1 ∨ m.mem ≠ s.memory.mem →
    ∃ c, pkt.contextId = some c ∧ Reserved s.history c (granule pkt.addr)
  failure : pkt'.extraData = some 0 → m.mem = s.memory.mem

/-! ## The condition -/

/-- The access may store to byte `b`. -/
def touches (pkt : MemPacket) (b : Nat) : Prop :=
  pkt.addr ≤ b ∧ b < pkt.addr + pkt.size ∧
    (pkt.isMaskedWrite = true → pkt.byteEnable.getD (b - pkt.addr) false = true)

/-- Load-locked and store-conditional packets lie in the granule of their request's address. A
swap or atomic operation touches no granule with a record, and another write none but that of
its request's address. -/
def Meets (m : AbstractMemory) (pkt : MemPacket) : Prop :=
  (pkt.cmd.isLLSC = true → granule pkt.paddr = granule pkt.addr) ∧
  ∀ b, touches pkt b → ∀ l ∈ m.lockedAddrList, l.addr = LockedAddr.mask b →
    ignores pkt = true ∨ pkt.cmd.isWrite = false ∨
      pkt.cmd ≠ .swapReq ∧ LockedAddr.mask pkt.paddr = l.addr

/-! ## What one access does -/

/-- The effects of an access on the records, the bytes and the report. -/
inductive Effect (m : AbstractMemory) (pkt : MemPacket) (o : Outcome) : Prop
  | idle (hll : loadLocked pkt = false) (hsc : storeConditional pkt = false)
      (hlocks : o.lockedAddrList = m.lockedAddrList) (hstores : ∀ b, o.stores b = none)
  | swap (hi : ignores pkt = false) (hcmd : pkt.cmd = .swapReq)
      (hlocks : o.lockedAddrList = m.lockedAddrList)
      (hstores : ∀ b, o.stores b ≠ none → touches pkt b)
  | loadLocked (c : Nat) (hll : loadLocked pkt = true) (hc : pkt.contextId = some c)
      (hlocks : m.trackLoadLocked pkt = .ok o.lockedAddrList) (hstores : ∀ b, o.stores b = none)
  | failed (hsc : storeConditional pkt = true) (hr : pkt.cmd.isRead = false)
      (hlocks : o.lockedAddrList = m.lockedAddrList)
      (hstores : ∀ b, o.stores b = none) (hreport : o.pkt.extraData = some 0)
  | stored (hi : ignores pkt = false) (hw : pkt.cmd.isWrite = true) (hr : pkt.cmd.isRead = false)
      (hlocks : o.lockedAddrList =
        m.lockedAddrList.filter fun l => l.addr ≠ LockedAddr.mask pkt.paddr)
      (hstores : ∀ b, o.stores b ≠ none → touches pkt b)
      (hreport : storeConditional pkt = true → o.pkt.extraData = some 1 ∧
        ∃ c, pkt.contextId = some c ∧ ⟨LockedAddr.mask pkt.paddr, c⟩ ∈ m.lockedAddrList)

section Effect

variable {m : AbstractMemory} {pkt pkt' : MemPacket} {o : Outcome} {v : Nat → UInt8}

theorem region_ne_none {b : Nat} (h : pkt.region v b ≠ none) :
    pkt.addr ≤ b ∧ b < pkt.addr + pkt.size := by
  by_contra hb
  exact h (if_neg hb)

theorem touches_of_region (hm : pkt.isMaskedWrite = false) {b : Nat} (h : pkt.region v b ≠ none) :
    touches pkt b :=
  ⟨(region_ne_none h).1, (region_ne_none h).2, by simp [hm]⟩

theorem written_touches :
    Yields (fun stores => ∀ b, stores b ≠ none → touches pkt b) (m.written pkt) := by
  simp only [written, MemPacket.writeData, yields_ite, yields_ok, yields_error, implies_true, true_and]
  refine ⟨fun _ => ⟨fun _ _ b hb => ?_, fun hm b hb => ?_⟩, fun _ b hb => absurd rfl hb⟩
  · split at hb
    · rename_i he
      exact ⟨(region_ne_none hb).1, (region_ne_none hb).2, fun _ => he⟩
    · exact absurd rfl hb
  · exact touches_of_region (by simpa using hm) hb

theorem getContextId_eq : Yields (fun c => pkt.contextId = some c) pkt.getContextId := by
  cases h : pkt.contextId <;> simp [MemPacket.getContextId, h]

theorem mem_of_findLock {paddr : Nat} (ls : List LockedAddr) :
    Yields (fun ok => ok = true → ∃ c, pkt.contextId = some c ∧ ⟨paddr, c⟩ ∈ ls)
      (findLock pkt paddr ls) := by
  induction ls with
  | nil => simp [findLock]
  | cons l ls ih =>
    have hrest : Yields (fun ok => ok = true → ∃ c, pkt.contextId = some c ∧ ⟨paddr, c⟩ ∈ l :: ls)
        (findLock pkt paddr ls) := by
      refine ih.imp fun ok h hok => ?_
      obtain ⟨c, hc, hmem⟩ := h hok
      exact ⟨c, hc, mem_cons_of_mem _ hmem⟩
    simp only [findLock, yields_ite, yields_bind, yields_ok]
    refine ⟨fun ha => getContextId_eq.imp fun c hc => ⟨fun hlc _ => ⟨c, hc, ?_⟩, fun _ => hrest⟩, fun _ => hrest⟩
    rw [← ha, ← hlc]
    exact mem_cons_self

/-- A store-conditional fails, or has found its record; other writes are allowed. -/
theorem write_effect (hw : m.writeable = true) (hi : ignores pkt = false)
    (hcw : pkt.cmd.isWrite = true) (hcr : pkt.cmd.isRead = false) :
    Yields (Effect m pkt) (m.write pkt) := by
  have hsc : storeConditional pkt = pkt.cmd.isLLSC := by simp [storeConditional, hi, hcw]
  have hplain (hl : ¬ pkt.cmd.isLLSC = true) {P : Prop} (htrue : storeConditional pkt = true) : P :=
    absurd (hsc.symm.trans htrue) hl
  simp only [write, writeOK, checkLockedAddrList, hw, Bool.true_eq_false, if_false, yields_ite, yields_bind,
    yields_ok, yields_error, implies_true, true_and]
  refine ⟨fun hempty => ?_, fun _ => ⟨fun hl => (mem_of_findLock _).imp fun ok hmem => ?_, fun hl => ?_⟩⟩
  · have hnil : m.lockedAddrList = [] := isEmpty_iff.1 hempty
    refine ⟨fun hl => ⟨by simp, fun _ => .failed (hsc.trans hl) hcr hnil.symm (fun _ => rfl) rfl⟩,
      fun hl => ⟨fun _ => written_touches.imp fun stores hst _ => ?_, by simp⟩⟩
    exact .stored hi hcw hcr (by simp [hnil]) hst (hplain hl)
  · cases ok with
    | false => exact ⟨by simp, fun _ => .failed (hsc.trans hl) hcr rfl (fun _ => rfl) rfl⟩
    | true =>
      refine ⟨fun _ => written_touches.imp fun stores hst _ => ?_, absurd rfl⟩
      exact .stored hi hcw hcr rfl hst fun _ => ⟨rfl, hmem rfl⟩
  · exact ⟨fun _ => written_touches.imp fun stores hst _ => .stored hi hcw hcr rfl hst (hplain hl), by simp⟩

theorem read_effect (hi : ignores pkt = false) (hcr : pkt.cmd.isRead = true) :
    Yields (Effect m pkt) (m.read pkt) := by
  simp only [AbstractMemory.read, yields_ite, yields_bind, yields_ok, yields_error, implies_true, true_and]
  refine fun hcw => ⟨fun hl _ locks htrack => ?_, fun hl => ?_⟩
  · obtain ⟨c, hc, -⟩ := bind_eq_ok.1 htrack
    exact .loadLocked c (by simp [loadLocked, hi, hcr, hl]) (getContextId_eq c hc) htrack fun _ => rfl
  · exact .idle (by simp [loadLocked, hl]) (by simp [storeConditional, hcw]) rfl fun _ => rfl

theorem swapReq_effect (hi : ignores pkt = false) (hcmd : pkt.cmd = .swapReq) :
    Yields (Effect m pkt) (if pkt.isAtomic then m.atomicOp pkt else m.swap pkt) := by
  have hm : pkt.isMaskedWrite = false := by simp [MemPacket.isMaskedWrite, hcmd]
  simp only [AbstractMemory.swap, yields_ite, yields_bind, yields_ok, yields_error, implies_true, true_and]
  refine ⟨fun _ => ?_, fun _ _ overwrite _ _ => .swap hi hcmd rfl fun b hb => ?_⟩
  · simp only [atomicOp, yields_ite, yields_ok]
    refine ⟨fun _ => ?_, fun _ => .swap hi hcmd rfl fun b hb => absurd rfl hb⟩
    cases pkt.atomicOpFunctor with
    | none => simp
    | some op => exact yields_ok.2 (.swap hi hcmd rfl fun b hb => touches_of_region hm hb)
  · cases overwrite with
    | true => exact touches_of_region hm hb
    | false => exact absurd rfl hb

theorem perform_effect (hw : m.writeable = true) (hi : ignores pkt = false) :
    Yields (Effect m pkt) (m.perform pkt) := by
  simp only [perform, yields_ite, yields_ok, yields_error, implies_true, true_and, and_true]
  refine ⟨fun hcmd => yields_ite.1 (swapReq_effect hi hcmd), fun _ => ⟨read_effect hi,
    fun hcr => ⟨fun _ hcw => ?_, fun _ hcw => ?_⟩⟩⟩
  · exact .idle (by simp [loadLocked, hcr]) (by simp [storeConditional, hcw]) rfl fun _ => rfl
  · exact write_effect hw hi hcw (by simpa using hcr)

theorem Effect.respond (h : Effect m pkt o) (hp : pkt'.extraData = o.pkt.extraData) :
    Effect m pkt { o with pkt := pkt' } := by
  cases h with
  | idle hll hsc hlocks hstores => exact .idle hll hsc hlocks hstores
  | swap hi hcmd hlocks hstores => exact .swap hi hcmd hlocks hstores
  | loadLocked c hll hc hlocks hstores => exact .loadLocked c hll hc hlocks hstores
  | failed hsc hcr hlocks hstores hreport => exact .failed hsc hcr hlocks hstores (hp.trans hreport)
  | stored hi hcw hcr hlocks hstores hreport =>
    exact .stored hi hcw hcr hlocks hstores fun hsc =>
      ⟨hp.trans (hreport hsc).1, (hreport hsc).2⟩

theorem plan_effect (hw : m.writeable = true) : Yields (Effect m pkt) (m.plan pkt) := by
  simp only [plan, MemPacket.makeResponse, yields_ite, yields_bind, yields_ok, yields_error, implies_true, true_and]
  refine ⟨fun hi => ?_, fun hi _ _ _ => (perform_effect hw (by simpa using hi)).imp fun o he => ?_⟩
  · exact .idle (by simp [loadLocked, hi]) (by simp [storeConditional, hi]) rfl fun _ => rfl
  · exact ⟨fun _ _ _ => he.respond rfl, fun _ => he⟩

end Effect

/-! ## The invariant -/

structure Inv (s : State) : Prop where
  writeable : s.memory.writeable = true
  locks : ∀ l ∈ s.memory.lockedAddrList, ∃ g, l.addr = 16 * g ∧ Reserved s.history l.contextId g
  contexts : s.memory.lockedAddrList.Pairwise fun l l' => l.contextId ≠ l'.contextId

section Inv

variable {s : State} {d : Done} {h : List Done} {c g : Nat} {m : AbstractMemory}
  {ls : List LockedAddr} {a : Nat}

theorem Reserved.cons (hr : Reserved h c g)
    (hll : ¬ (loadLocked d.pkt = true ∧ d.pkt.contextId = some c))
    (hst : ∀ b, granule b = g → d.stores b = none) : Reserved (d :: h) c g := by
  obtain ⟨later, e, earlier, rfl, he, hc, hg, hlast, hclean⟩ := hr
  refine ⟨d :: later, e, earlier, rfl, he, hc, hg, ?_, ?_⟩
  · exact forall_mem_cons.2 ⟨hll, hlast⟩
  · exact forall_mem_cons.2 ⟨hst, hclean⟩

theorem Reserved.new (hll : loadLocked d.pkt = true) (hc : d.pkt.contextId = some c) :
    Reserved (d :: h) c (granule d.pkt.addr) :=
  ⟨[], d, h, rfl, hll, hc, rfl, by simp, by simp⟩

theorem mask_eq (a : Nat) : mask a = 16 * granule a := mul_comm _ _

variable {o : Outcome} {pkt : MemPacket}

/-- What stays in the list after an access that is no load-locked and stores nothing to the
granules of what stays. -/
theorem Inv.keep (hi : Inv s) (hll : loadLocked pkt = false)
    (hsub : o.lockedAddrList.Sublist s.memory.lockedAddrList)
    (hst : ∀ l ∈ o.lockedAddrList, ∀ b, mask b = l.addr → o.stores b = none) :
    Inv { memory := s.memory.after o, history := ⟨pkt, o.stores⟩ :: s.history } := by
  refine ⟨hi.writeable, ?_, hi.contexts.sublist hsub⟩
  intro l hl
  obtain ⟨g, ha, hr⟩ := hi.locks l (hsub.subset hl)
  refine ⟨g, ha, hr.cons (by simp [hll]) fun b hb => hst l hl b ?_⟩
  rw [mask_eq, hb, ha]

theorem relock_none (h : relock c a ls = none) : ∀ l ∈ ls, l.contextId ≠ c := by
  induction ls with
  | nil => simp
  | cons l ls ih =>
    unfold relock at h
    split at h
    · cases h
    · rename_i hne
      exact forall_mem_cons.2 ⟨hne, ih (Option.map_eq_none_iff.1 h)⟩

theorem relock_some {ls' : List LockedAddr} (h : relock c a ls = some ls')
    (hd : ls.Pairwise fun l l' => l.contextId ≠ l'.contextId) :
    ls'.map (·.contextId) = ls.map (·.contextId) ∧
      ∀ l ∈ ls', (l.contextId = c ∧ l.addr = a) ∨ (l ∈ ls ∧ l.contextId ≠ c) := by
  induction ls generalizing ls' with
  | nil => cases h
  | cons l ls ih =>
    obtain ⟨hl, hls⟩ := pairwise_cons.1 hd
    unfold relock at h
    split at h
    · rename_i hc
      cases h
      refine ⟨rfl, forall_mem_cons.2 ⟨.inl ⟨hc, rfl⟩, fun l' hl' => ?_⟩⟩
      exact .inr ⟨mem_cons_of_mem _ hl', fun heq => hl l' hl' (hc.trans heq.symm)⟩
    · rename_i hc
      obtain ⟨rest, hrest, rfl⟩ := Option.map_eq_some_iff.1 h
      obtain ⟨hmap, hmem⟩ := ih hrest hls
      refine ⟨by simp [hmap], forall_mem_cons.2 ⟨.inr ⟨mem_cons_self, hc⟩, ?_⟩⟩
      intro l' hl'
      exact (hmem l' hl').imp_right fun h => ⟨mem_cons_of_mem _ h.1, h.2⟩

/-- A load-locked leaves one record of its context, the new one. -/
theorem tracked {locks : List LockedAddr}
    (hd : m.lockedAddrList.Pairwise fun l l' => l.contextId ≠ l'.contextId)
    (hc : pkt.contextId = some c) (h : m.trackLoadLocked pkt = .ok locks) :
    locks.Pairwise (fun l l' => l.contextId ≠ l'.contextId) ∧
      ∀ l ∈ locks, (l.contextId = c ∧ l.addr = mask pkt.paddr) ∨
        (l ∈ m.lockedAddrList ∧ l.contextId ≠ c) := by
  have heq : (relock c (mask pkt.paddr) m.lockedAddrList).getD
      (⟨mask pkt.paddr, c⟩ :: m.lockedAddrList) = locks := by
    simpa [trackLoadLocked, MemPacket.getContextId, hc] using h
  cases hre : relock c (mask pkt.paddr) m.lockedAddrList with
  | none =>
    have hnone := relock_none hre
    rw [hre] at heq
    subst heq
    refine ⟨pairwise_cons.2 ⟨fun l hl => (hnone l hl).symm, hd⟩, ?_⟩
    exact forall_mem_cons.2 ⟨.inl ⟨rfl, rfl⟩, fun l hl => .inr ⟨hl, hnone l hl⟩⟩
  | some ls =>
    rw [hre, Option.getD_some] at heq
    subst heq
    obtain ⟨hmap, hmem⟩ := relock_some hre hd
    refine ⟨pairwise_map.1 ?_, hmem⟩
    rw [hmap]
    exact pairwise_map.2 hd

theorem Inv.lock (hi : Inv s) (hll : loadLocked pkt = true)
    (hc : pkt.contextId = some c) (hg : granule pkt.paddr = granule pkt.addr)
    (hlocks : s.memory.trackLoadLocked pkt = .ok o.lockedAddrList) (hst : ∀ b, o.stores b = none) :
    Inv { memory := s.memory.after o, history := ⟨pkt, o.stores⟩ :: s.history } := by
  obtain ⟨hd, hmem⟩ := tracked hi.contexts hc hlocks
  refine ⟨hi.writeable, ?_, hd⟩
  intro l hl
  rcases hmem l hl with ⟨hlc, hla⟩ | ⟨hold, hne⟩
  · refine ⟨granule pkt.addr, by rw [hla, mask_eq, hg], ?_⟩
    rw [hlc]
    exact .new hll hc
  · obtain ⟨g, ha, hr⟩ := hi.locks l hold
    refine ⟨g, ha, hr.cons ?_ fun b _ => hst b⟩
    rintro ⟨-, hl⟩
    exact hne (Option.some.inj (hl.symm.trans hc))

theorem Inv.step (hi : Inv s) (hg : Meets s.memory pkt) (h : s.memory.plan pkt = .ok o) :
    Inv { memory := s.memory.after o, history := ⟨pkt, o.stores⟩ :: s.history } := by
  obtain ⟨hsame, htouch⟩ := hg
  cases plan_effect hi.writeable o h with
  | idle hll hsc hlocks hstores =>
    exact hi.keep hll (hlocks ▸ .refl _) fun _ _ b _ => hstores b
  | failed hsc hcr hlocks hstores hreport =>
    have hll : loadLocked pkt = false := by simp [loadLocked, hcr]
    exact hi.keep hll (hlocks ▸ .refl _) fun _ _ b _ => hstores b
  | swap hig hcmd hlocks hstores =>
    have hll : loadLocked pkt = false := by
      rw [loadLocked, hcmd]
      simp [show MemCmd.swapReq.isLLSC = false from rfl]
    refine hi.keep hll (hlocks ▸ .refl _) fun l hl b hb => ?_
    by_contra hne
    rcases htouch b (hstores b hne) l (hlocks ▸ hl) hb.symm with hx | hx | hx
    · rw [hig] at hx
      cases hx
    · rw [hcmd] at hx
      cases hx
    · exact hx.1 hcmd
  | loadLocked c hll hc hlocks hstores =>
    have hl : pkt.cmd.isLLSC = true := by
      simp only [StoreConditional.loadLocked, Bool.and_eq_true] at hll
      exact hll.2
    exact hi.lock hll hc (hsame hl) hlocks hstores
  | stored hig hcw hcr hlocks hstores hreport =>
    have hll : loadLocked pkt = false := by simp [loadLocked, hcr]
    refine hi.keep hll (hlocks ▸ filter_sublist) fun l hl b hb => ?_
    by_contra hne
    rw [hlocks] at hl
    obtain ⟨hmem, hkept⟩ := mem_filter.1 hl
    rcases htouch b (hstores b hne) l hmem hb.symm with hx | hx | hx
    · rw [hig] at hx
      cases hx
    · rw [hcw] at hx
      cases hx
    · exact absurd hx.2.symm (by simpa using hkept)

theorem Inv.init (h : machine.init s) : Inv s := by
  obtain ⟨hw, hl, -⟩ := h
  exact ⟨hw, by simp [hl], by simp [hl]⟩

theorem MemCmd.read_write_llsc (cmd : MemCmd) :
    (cmd.isRead && cmd.isWrite && cmd.isLLSC) = false := by
  cases cmd <;> rfl

theorem after_mem (h : ∀ b, o.stores b = none) : (m.after o).mem = m.mem := by
  funext b
  simp [after, h b]

theorem Inv.atomic (hi : Inv s) (hg : Meets s.memory pkt) (h : s.memory.plan pkt = .ok o)
    (hsc : storeConditional pkt = true) : Atomic s pkt (s.memory.after o) o.pkt := by
  have hw : pkt.cmd.isWrite = true ∧ pkt.cmd.isLLSC = true := by
    simp only [storeConditional, Bool.and_eq_true] at hsc
    exact ⟨hsc.1.2, hsc.2⟩
  cases plan_effect hi.writeable o h with
  | idle hll hno hlocks hstores =>
    rw [hsc] at hno
    cases hno
  | swap hig hcmd hlocks hstores =>
    rw [hcmd] at hw
    cases hw.2
  | loadLocked c hll hc hlocks hstores =>
    have hboth := MemCmd.read_write_llsc pkt.cmd
    simp only [StoreConditional.loadLocked, Bool.and_eq_true] at hll
    simp [hll.1.2, hw.1, hw.2] at hboth
  | failed _ hcr hlocks hstores hreport =>
    refine ⟨?_, fun _ => after_mem hstores⟩
    rintro (hone | hchanged)
    · rw [hreport] at hone
      cases hone
    · exact absurd (after_mem hstores) hchanged
  | stored hig hcw hcr hlocks hstores hreport =>
    obtain ⟨hone, c, hc, hmem⟩ := hreport hsc
    obtain ⟨g, ha, hr⟩ := hi.locks _ hmem
    refine ⟨fun _ => ⟨c, hc, ?_⟩, fun hzero => ?_⟩
    · have hgr : g = granule pkt.addr := by
        rw [← hg.1 hw.2]
        exact Nat.eq_of_mul_eq_mul_left (by decide) (ha.symm.trans (mask_eq _))
      exact hgr ▸ hr
    · rw [hone] at hzero
      cases hzero

end Inv

/-- **Store-conditionals are atomic in the runs that keep to `Meets`.** -/
theorem sc_atomic {s : State}
    (hr : (machine.under fun s pkt => Meets s.memory pkt).Reachable (.ok s))
    {pkt pkt' : MemPacket} {m : AbstractMemory} (hg : Meets s.memory pkt)
    (hsc : storeConditional pkt = true) (h : s.memory.access pkt = .ok (m, pkt')) :
    Atomic s pkt m pkt' := by
  have hi : Inv s := by
    refine invariant (fun s hs => .init hs) ?_ hr
    intro s pkt s' hi _ hmeets hstep
    obtain ⟨o, ho, hs'⟩ := bind_eq_ok.1 hstep
    cases hs'
    exact hi.step hmeets ho
  obtain ⟨o, ho, hres⟩ := bind_eq_ok.1 h
  cases hres
  exact hi.atomic hg ho hsc

/-! ## Runs on fixed packets -/

def base : State where
  memory := { range := { start := 0, stop := 64 } }

/-- A load-locked and a store-conditional of context 0, to the granule at 16. -/
def load : MemPacket where
  cmd := .loadLockedReq
  addr := 16
  size := 8
  paddr := 16
  contextId := some 0

def store : MemPacket := { load with cmd := .storeCondReq, data := fun _ => 1 }

def swapping : MemPacket := { load with cmd := .swapReq, contextId := some 1, data := fun _ => 2 }

/-- A write by context 1 that starts in the granule before. -/
def straddling : MemPacket where
  cmd := .writeReq
  addr := 8
  size := 16
  paddr := 8
  contextId := some 1
  data := fun _ => 2

theorem sc_atomic_after_load :
    ∃ s m pkt', (machine.under fun s pkt => Meets s.memory pkt).Reachable (.ok s) ∧
      s.memory.access store = .ok (m, pkt') ∧ pkt'.extraData = some 1 ∧ Atomic s store m pkt' := by
  have hr : (machine.under fun s pkt => Meets s.memory pkt).Reachable (.ok
      { memory := { base.memory with lockedAddrList := [⟨16, 0⟩] },
        history := [⟨load, fun _ => none⟩] }) := by
    refine under_step load (under_init (s := base) ⟨rfl, rfl, rfl⟩) trivial ?_ rfl
    exact ⟨fun _ => rfl, by simp [base]⟩
  have hg : Meets { base.memory with lockedAddrList := [⟨16, 0⟩] } store := by
    refine ⟨fun _ => rfl, fun b _ l hl _ => .inr (.inr ⟨by decide, ?_⟩)⟩
    rw [mem_singleton.1 hl]
    rfl
  exact ⟨_, _, _, hr, rfl, rfl, sc_atomic hr hg rfl rfl⟩

theorem not_reserved {d e : Done} {b c : Nat} (hll : loadLocked d.pkt = false)
    (hst : d.stores b ≠ none) : ¬ Reserved [d, e] c (granule b) := by
  rintro ⟨later, f, earlier, hsplit, hf, -, -, -, hclean⟩
  cases later with
  | nil =>
    cases hsplit
    rw [hll] at hf
    cases hf
  | cons d' later =>
    obtain ⟨rfl, -⟩ := cons_eq_cons.1 hsplit
    exact hst (hclean d mem_cons_self b rfl)

/-- The store-conditional succeeds although `between` came since the load-locked. -/
def Succeeds (between : MemPacket) : Prop :=
  ∃ s m pkt', machine.runs (fun _ _ => true) (.ok base) [load, between] = some (.ok s) ∧
    machine.lts.Reachable (.ok s) ∧ storeConditional store = true ∧
    s.memory.access store = .ok (m, pkt') ∧ ¬ Atomic s store m pkt'

/-- A store-conditional succeeds although its bytes were stored to since the load-locked. -/
theorem sc_not_atomic : Succeeds swapping ∧ Succeeds straddling := by
  have hr := fun ls {y} => lts_runs (M := machine) (fun _ _ => true)
    (fun _ _ _ => trivial) ls (y := y) (lts_init (s := base) ⟨rfl, rfl, rfl⟩)
  refine ⟨?_, ?_⟩
  · refine ⟨_, _, _, rfl, hr [load, swapping] rfl, rfl, rfl, fun h => ?_⟩
    obtain ⟨c, -, hres⟩ := h.success (.inl rfl)
    exact not_reserved rfl (by decide) hres
  · refine ⟨_, _, _, rfl, hr [load, straddling] rfl, rfl, rfl, fun h => ?_⟩
    obtain ⟨c, -, hres⟩ := h.success (.inl rfl)
    exact not_reserved rfl (by decide) hres

end Gem5Cxl.L3.StoreConditional
