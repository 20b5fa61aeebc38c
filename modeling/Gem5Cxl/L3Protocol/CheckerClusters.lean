import Gem5Cxl.L3Protocol.CheckerHistory

/-!
# The write clusters of a byte against its history

`ClustersOk`: each transaction of a cluster is a write of the history with its ticks;
clusters follow each other in time, and all but the last are complete; and a write of
the history that is in no cluster any more is overwritten for every read that is still
outstanding (`Overwritten`). One lemma for each call on a cluster, and one for the
pruning.
-/
namespace Gem5Cxl.L3.Checker

open Core L1 L2.Checker ByteTracker List

/-- The transaction is a write of the history, aborted ones apart. -/
def IsWrite (e : Env) (h : History) (w : Transaction) : Prop :=
  ∃ o, h w.serial = some o ∧ o.isWrite = true ∧ w.data = o.data ∧ w.start = e.clock o.start ∧
    (o.status = .pending ∧ w.complete = tickFuture ∨
      ∃ c, o.status = .complete c ∧ w.complete = e.clock c)

/-- The first write is complete before the second starts. -/
def CallsBefore (h : History) (k k' : Nat) : Prop :=
  ∃ o c o', h k = some o ∧ o.status = .complete c ∧ h k' = some o' ∧ c < o'.start

/-- A later write is complete before every outstanding read. -/
def Overwritten (h : History) (k : Nat) : Prop :=
  ∃ k' o' c', CallsBefore h k k' ∧ h k' = some o' ∧ o'.isWrite = true ∧ o'.status = .complete c' ∧
    ∀ i r, h i = some r → r.isWrite = false → r.status = .pending → c' < r.start

structure ClusterOk (c : WriteCluster) : Prop where
  nodup : (c.writes.map (·.serial)).Nodup
  count : c.numIncomplete = c.writes.countP (·.complete = tickFuture)
  max : ∀ w ∈ c.writes, w.complete ≠ tickFuture → w.complete ≤ c.completeMax
  maxLt : c.completeMax < tickFuture
  state : c.complete = tickFuture ∧ (c.numIncomplete ≠ 0 ∨ c.writes = []) ∨
    c.complete ≠ tickFuture ∧ c.complete = c.completeMax ∧ c.numIncomplete = 0 ∧ c.writes ≠ []

structure ClustersOk (e : Env) (h : History) (cs : List WriteCluster) : Prop where
  cluster : ∀ c ∈ cs, ClusterOk c
  isWrite : ∀ c ∈ cs, ∀ w ∈ c.writes, IsWrite e h w
  ordered : cs.Pairwise fun a b => a.complete ≠ tickFuture ∧
    ∀ w ∈ a.writes, ∀ w' ∈ b.writes, CallsBefore h w.serial w'.serial
  all : ∀ k o, h k = some o → o.isWrite = true → o.status ≠ .aborted →
    (∃ c ∈ cs, ∃ w ∈ c.writes, w.serial = k) ∨ Overwritten h k

/-- Each cluster starts with a write, which may have been aborted since. -/
def Started (e : Env) (h : History) (cs : List WriteCluster) : Prop :=
  ∀ c ∈ cs, ∃ k o, h k = some o ∧ o.isWrite = true ∧ c.start = e.clock o.start

theorem ClusterOk.complete_iff {c : WriteCluster} (hc : ClusterOk c)
    (hcomplete : c.complete ≠ tickFuture) :
    c.writes ≠ [] ∧ ∀ w ∈ c.writes, w.complete ≠ tickFuture ∧ w.complete ≤ c.complete := by
  rcases hc.state with ⟨hf, -⟩ | ⟨-, hmax, hnum, hne⟩
  · exact absurd hf hcomplete
  · refine ⟨hne, fun w hw => ?_⟩
    rw [hc.count, countP_eq_zero] at hnum
    have hwc : w.complete ≠ tickFuture := by simpa using hnum w hw
    exact ⟨hwc, hmax ▸ hc.max w hw hwc⟩

theorem clusterOk_fresh : ClusterOk {} :=
  ⟨nodup_nil, rfl, nofun, by decide, .inl ⟨rfl, .inr rfl⟩⟩

variable {e : Env} {h : History} {tick : Nat} {w : Transaction}

/-! ## Later calls -/

theorem IsWrite.later (hok : HistoryOk e.calls h) (hw : IsWrite e h w) :
    IsWrite (e.call tick) h w := by
  obtain ⟨o, ho, hwrite, hdata, hstart, hstatus⟩ := hw
  refine ⟨o, ho, hwrite, hdata, ?_, ?_⟩
  · rw [Env.call_clock (hok.start_lt _ _ ho), hstart]
  · rcases hstatus with hp | ⟨c, hc, hcomplete⟩
    · exact .inl hp
    · refine .inr ⟨c, hc, ?_⟩
      rw [Env.call_clock (hok.complete_lt _ _ _ ho hc).2, hcomplete]

variable {cs : List WriteCluster}

theorem ClustersOk.later (hok : HistoryOk e.calls h) (hcs : ClustersOk e h cs) :
    ClustersOk (e.call tick) h cs := by
  exact ⟨hcs.cluster, fun c hc w hw => (hcs.isWrite c hc w hw).later hok, hcs.ordered, hcs.all⟩

theorem Started.later (hok : HistoryOk e.calls h) (hcs : Started e h cs) :
    Started (e.call tick) h cs := by
  intro c hc
  obtain ⟨k, o, ho, hwrite, hstart⟩ := hcs c hc
  exact ⟨k, o, ho, hwrite, (Env.call_clock (hok.start_lt k o ho)) ▸ hstart⟩

variable {pre : List WriteCluster} {c' : WriteCluster}

/-! ## Changes of the history at one serial -/

section
variable {e : Env} {h : History} {k m : Nat} {o : ByteOp} {k₁ : Nat}

/-- What the history has at `k`, if anything, is not complete, and becomes `o`. -/
def Becomes (h : History) (k : Nat) (o : ByteOp) : Prop :=
  ∀ o₀, h k = some o₀ → o.start = o₀.start ∧ o.isWrite = o₀.isWrite ∧ ∀ c, o₀.status ≠ .complete c

theorem becomes_of_none (hk : h k = none) : Becomes h k o := by simp [Becomes, hk]

theorem becomes_of_pending {o' : ByteOp} (hk : h k = some o) (hp : o.status = .pending)
    (hs : o'.start = o.start) (hw : o'.isWrite = o.isWrite) : Becomes h k o' := by
  intro o₀ h₀
  cases hk.symm.trans h₀
  exact ⟨hs, hw, by simp [hp]⟩

theorem IsWrite.set (hne : w.serial ≠ k) (hw : IsWrite e h w) : IsWrite e (h.set k o) w := by
  obtain ⟨o', ho', hrest⟩ := hw
  exact ⟨o', (h.set_ne o hne).trans ho', hrest⟩

/-- The first write of the two is complete, so it is not the one that changes. -/
theorem CallsBefore.set {k₂ : Nat} (hk : Becomes h k o) (hb : CallsBefore h k₁ k₂) :
    CallsBefore (h.set k o) k₁ k₂ := by
  obtain ⟨o₁, c, o₂, h₁, hc, h₂, hlt⟩ := hb
  have hne : k₁ ≠ k := by
    rintro rfl
    exact (hk o₁ h₁).2.2 c hc
  by_cases hne₂ : k₂ = k
  · subst hne₂
    exact ⟨o₁, c, o, (h.set_ne o hne).trans h₁, hc, h.set_self k₂ o, (hk o₂ h₂).1 ▸ hlt⟩
  · exact ⟨o₁, c, o₂, (h.set_ne o hne).trans h₁, hc, (h.set_ne o hne₂).trans h₂, hlt⟩

/-- `o` may be a new outstanding read, one that starts after all that is complete. -/
theorem Overwritten.set (hok : HistoryOk m h) (hk : Becomes h k o)
    (hread : o.isWrite = false → o.status = .pending → m ≤ o.start)
    (hov : Overwritten h k₁) : Overwritten (h.set k o) k₁ := by
  obtain ⟨k', o', c', hb, hk', hwrite, hc', hreads⟩ := hov
  have hne : k' ≠ k := by
    rintro rfl
    exact (hk o' hk').2.2 c' hc'
  refine ⟨k', o', c', hb.set hk, (h.set_ne o hne).trans hk', hwrite, hc', ?_⟩
  intro i r hi hr hp
  rcases History.set_cases hi with ⟨-, rfl⟩ | ⟨-, hi⟩
  · exact lt_of_lt_of_le (hok.complete_lt _ _ _ hk' hc').2 (hread hr hp)
  · exact hreads i r hi hr hp

theorem ClustersOk.setRead (hok : HistoryOk m h) (hcs : ClustersOk e h cs) (hk : Becomes h k o)
    (hread : o.isWrite = false)
    (hstart : o.status = .pending → m ≤ o.start) : ClustersOk e (h.set k o) cs := by
  refine ⟨hcs.cluster, fun c hc w hw => (hcs.isWrite c hc w hw).set ?_, ?_,
    fun k₁ o₁ h₁ hwrite hab => ?_⟩
  · rintro rfl
    obtain ⟨o', ho', hwrite, -⟩ := hcs.isWrite c hc w hw
    simp [← (hk o' ho').2.1, hread] at hwrite
  · exact hcs.ordered.imp fun {a b} hab => ⟨hab.1, fun w hw w' hw' => (hab.2 w hw w' hw').set hk⟩
  · rcases History.set_cases h₁ with ⟨-, rfl⟩ | ⟨-, h₁⟩
    · simp [hread] at hwrite
    · exact (hcs.all k₁ o₁ h₁ hwrite hab).imp id (.set hok hk fun _ => hstart)

theorem Started.set (hcs : Started e h cs) (hk : Becomes h k o) : Started e (h.set k o) cs := by
  intro c hc
  obtain ⟨k', o', ho', hwrite, hstart⟩ := hcs c hc
  by_cases hne : k' = k
  · subst hne
    obtain ⟨hos, how, -⟩ := hk o' ho'
    exact ⟨k', o, h.set_self k' o, how.trans hwrite, hos ▸ hstart⟩
  · exact ⟨k', o', (h.set_ne o hne).trans ho', hwrite, hstart⟩

theorem ClustersOk.earlier {a c : WriteCluster}
    (hcs : ClustersOk e h (pre ++ [c])) (ha : a ∈ pre) (hw : w ∈ a.writes) :
    w.complete ≠ tickFuture ∧ ∃ o d, h w.serial = some o ∧ o.status = .complete d := by
  have ha' : a ∈ pre ++ [c] := mem_append_left _ ha
  have hcomplete := ((pairwise_append.1 hcs.ordered).2.2 a ha c mem_cons_self).1
  have hwc := (((hcs.cluster a ha').complete_iff hcomplete).2 w hw).1
  obtain ⟨o, ho, -, -, -, hp | ⟨d, hd, -⟩⟩ := hcs.isWrite a ha' w hw
  · exact absurd hp.2 hwc
  · exact ⟨hwc, o, d, ho, hd⟩

/-- The last cluster changes with the operation of serial `k`, a write that is not complete. -/
theorem ClustersOk.replaceLast {c : WriteCluster} (hcs : ClustersOk e h (pre ++ [c]))
    (hok : HistoryOk m h)
    (hk : Becomes h k o) (hwrite : o.isWrite = true) (hc' : ClusterOk c')
    (hisWrite : ∀ w ∈ c'.writes, IsWrite e (h.set k o) w)
    (hfrom : ∀ w' ∈ c'.writes, w'.serial ≠ k → ∃ w ∈ c.writes, w.serial = w'.serial)
    (hto : ∀ w ∈ c.writes, w.serial ≠ k → ∃ w' ∈ c'.writes, w'.serial = w.serial)
    (hself : o.status ≠ .aborted → ∃ w' ∈ c'.writes, w'.serial = k)
    (hbefore : ∀ a ∈ pre, ∀ w ∈ a.writes, CallsBefore (h.set k o) w.serial k) :
    ClustersOk e (h.set k o) (pre ++ [c']) := by
  have hord := pairwise_append.1 hcs.ordered
  have hpre : ∀ a ∈ pre, a ∈ pre ++ [c] := fun a ha => mem_append_left _ ha
  refine ⟨?_, ?_, ?_, fun k₁ o₁ h₁ hw₁ hab => ?_⟩
  · exact forall_mem_append.2 ⟨fun a ha => hcs.cluster a (hpre a ha), forall_mem_singleton.2 hc'⟩
  · refine forall_mem_append.2 ⟨fun a ha w hw => ?_, forall_mem_singleton.2 hisWrite⟩
    refine (hcs.isWrite a (hpre a ha) w hw).set fun heq => ?_
    obtain ⟨-, o', d, ho', hd⟩ := hcs.earlier ha hw
    exact (hk o' (heq ▸ ho')).2.2 d hd
  · refine pairwise_append.2 ⟨?_, pairwise_singleton _ _, fun a ha b hb => ?_⟩
    · exact hord.1.imp fun {a b} hab => ⟨hab.1, fun w hw w' hw' => (hab.2 w hw w' hw').set hk⟩
    · obtain ⟨hcomplete, hcalls⟩ := hord.2.2 a ha c (by simp)
      refine ⟨hcomplete, fun w hw w' hw' => ?_⟩
      rw [mem_singleton.1 hb] at hw'
      by_cases hw'k : w'.serial = k
      · exact hw'k ▸ hbefore a ha w hw
      · obtain ⟨w'', hw'', heq⟩ := hfrom w' hw' hw'k
        exact (heq ▸ hcalls w hw w'' hw'').set hk
  · rcases History.set_cases h₁ with ⟨rfl, rfl⟩ | ⟨hk₁, h₁⟩
    · obtain ⟨w', hw', heq⟩ := hself hab
      exact .inl ⟨c', by simp, w', hw', heq⟩
    · rcases hcs.all k₁ o₁ h₁ hw₁ hab with ⟨a, ha, w, hw, heq⟩ | hov
      · left
        rcases mem_append.1 ha with ha | ha
        · exact ⟨a, mem_append_left _ ha, w, hw, heq⟩
        · rw [mem_singleton.1 ha] at hw
          obtain ⟨w', hw', heq'⟩ := hto w hw (heq ▸ hk₁)
          exact ⟨c', by simp, w', hw', heq'.trans heq⟩
      · exact .inr (hov.set hok hk fun hr => by simp [hwrite] at hr)

end

/-! ## The cluster that calls work on -/

theorem onIncomplete_concat (f : WriteCluster → Except Fault WriteCluster) (pre : List WriteCluster)
    (c : WriteCluster) :
    onIncompleteWriteCluster f (pre ++ [c]) =
      if c.isComplete then do return pre ++ [c, ← f {}] else do return pre ++ [← f c] := by
  induction pre with
  | nil => rfl
  | cons a pre ih =>
    have hstep : onIncompleteWriteCluster f (a :: (pre ++ [c])) =
        (do return a :: (← onIncompleteWriteCluster f (pre ++ [c]))) := by
      cases pre <;> rfl
    rw [cons_append, hstep, ih]
    split
    · cases f {} <;> rfl
    · cases f c <;> rfl

/-- The cluster is the last one, or a new one after the last. -/
structure Opens (cs pre : List WriteCluster) (c : WriteCluster) : Prop where
  incomplete : c.complete = tickFuture
  run : ∀ {f c'}, f c = .ok c' → ByteTracker.onIncompleteWriteCluster f cs = .ok (pre ++ [c'])
  same : cs = pre ++ [c] ∨ cs = pre ∧ c = {}

section
variable {e : Env} {h : History} {cs pre : List WriteCluster} {c : WriteCluster} {m k : Nat}
  {o : ByteOp}

theorem exists_opens (cs : List WriteCluster) :
    ∃ pre c, Opens cs pre c ∧ (cs = pre → ∀ a, cs.getLast? = some a → a.complete ≠ tickFuture) := by
  rcases eq_nil_or_concat cs with rfl | ⟨pre, c, rfl⟩
  · refine ⟨[], {}, ⟨rfl, fun {f c'} hf => ?_, .inr ⟨rfl, rfl⟩⟩, fun _ a ha => by simp at ha⟩
    simp only [onIncompleteWriteCluster, hf]
    rfl
  · rw [concat_eq_append]
    by_cases hc : c.complete = tickFuture
    · refine ⟨pre, c, ⟨hc, fun {f c'} hf => ?_, .inl rfl⟩, fun heq => by simp at heq⟩
      rw [onIncomplete_concat, if_neg (by simp [WriteCluster.isComplete, hc]), hf]
      rfl
    · refine ⟨pre ++ [c], {}, ⟨rfl, fun {f c'} hf => ?_, .inr ⟨rfl, rfl⟩⟩, fun _ a ha => ?_⟩
      · rw [onIncomplete_concat, if_pos (by simp [WriteCluster.isComplete, hc]), hf]
        simp only [ok_bind, append_assoc, cons_append, nil_append]
        rfl
      · simp only [getLast?_append, getLast?_singleton, Option.some_or, Option.some.injEq] at ha
        exact ha ▸ hc

theorem ClustersOk.opens (hcs : ClustersOk e h cs) :
    ∃ pre c, Opens cs pre c ∧ ClustersOk e h (pre ++ [c]) := by
  obtain ⟨pre, c, ho, hlast⟩ := exists_opens cs
  refine ⟨pre, c, ho, ?_⟩
  rcases ho.same with heq | ⟨heq, hc⟩
  · exact heq ▸ hcs
  · subst hc
    rw [← heq]
    refine ⟨?_, ?_, ?_, fun k o hk hw hab => ?_⟩
    · exact forall_mem_append.2 ⟨hcs.cluster, forall_mem_singleton.2 clusterOk_fresh⟩
    · exact forall_mem_append.2 ⟨hcs.isWrite, forall_mem_singleton.2 (forall_mem_nil _)⟩
    · refine pairwise_append.2 ⟨hcs.ordered, pairwise_singleton _ _, fun a ha b hb => ?_⟩
      rw [mem_singleton.1 hb]
      refine ⟨?_, nofun⟩
      -- all clusters are complete: the last one is, and the others come before it
      obtain ⟨cs₁, z, hz⟩ := (eq_nil_or_concat cs).resolve_left (ne_nil_of_mem ha)
      rw [concat_eq_append] at hz
      rw [hz] at ha
      rcases mem_append.1 ha with ha | ha
      · exact ((pairwise_append.1 (hz ▸ hcs.ordered)).2.2 a ha z (by simp)).1
      · rw [mem_singleton.1 ha]
        exact hlast heq z (by simp [hz])
    · refine (hcs.all k o hk hw hab).imp ?_ id
      rintro ⟨a, ha, hrest⟩
      exact ⟨a, mem_append_left _ ha, hrest⟩

theorem ClustersOk.mem_last (hcs : ClustersOk e h (pre ++ [c])) (hk : h k = some o)
    (hwrite : o.isWrite = true) (hp : o.status = .pending) :
    ∃ w ∈ c.writes, w.serial = k ∧ w.complete = tickFuture := by
  have hnot : ∀ o' d, h k = some o' → o'.status ≠ .complete d := by
    intro o' d ho' hd
    cases hk.symm.trans ho'
    cases hp.symm.trans hd
  rcases hcs.all k o hk hwrite (by simp [hp]) with ⟨a, ha, w, hw, heq⟩ | ⟨k', o', c',
    ⟨o₁, d, o₂, h₁, hd, -⟩, -⟩
  · obtain ⟨o', ho', -, -, -, hp' | ⟨d, hd, -⟩⟩ := hcs.isWrite a ha w hw
    · rcases mem_append.1 ha with hpre | hlast
      · exact absurd hp'.2 (hcs.earlier hpre hw).1
      · exact ⟨w, mem_singleton.1 hlast ▸ hw, heq, hp'.2⟩
    · exact absurd hd (hnot o' d (heq ▸ ho'))
  · exact absurd hd (hnot o₁ d h₁)

end

/-! ## Calls on a cluster -/

section
variable {c : WriteCluster} {serial tick : Nat} {data : BitVec 8}

def startedWith (c : WriteCluster) (serial tick : Nat) (data : BitVec 8) : WriteCluster :=
  { c with
    start := if c.start = tickFuture then tick else c.start
    numIncomplete := c.numIncomplete + 1
    complete := tickFuture
    writes := c.writes ++ [⟨serial, tick, tickFuture, data⟩] }

theorem startWrite_eq (hincomplete : c.complete = tickFuture)
    (hstart : c.start = tickFuture ∨ c.start ≤ tick) (hfresh : ∀ w ∈ c.writes, w.serial ≠ serial) :
    c.startWrite serial tick data = .ok (startedWith c serial tick data) := by
  have hfirst : ¬ tick < if c.start = tickFuture then tick else c.start := by
    split
    · exact lt_irrefl _
    · rename_i hne
      exact not_lt.2 (hstart.resolve_left hne)
  have hany : (c.writes.any fun w => decide (w.serial = serial)) = false := by
    simpa using hfresh
  simp only [WriteCluster.startWrite]
  rw [if_neg (by simp [WriteCluster.isComplete, hincomplete]), if_neg hfirst,
    if_neg (by simp [hincomplete])]
  simp [WriteCluster.insert, startedWith, hany]

section

variable (hc : ClusterOk c)
include hc

theorem ClusterOk.startedWith (hfresh : ∀ w ∈ c.writes, w.serial ≠ serial) :
    ClusterOk (startedWith c serial tick data) := by
  refine ⟨?_, ?_, ?_, hc.maxLt, .inl ⟨rfl, .inl (Nat.succ_ne_zero _)⟩⟩
  · simp only [Checker.startedWith, map_append, map_cons, map_nil]
    refine nodup_append.2 ⟨hc.nodup, nodup_singleton _, fun a ha b hb => ?_⟩
    obtain ⟨w, hw, rfl⟩ := mem_map.1 ha
    rw [mem_singleton.1 hb]
    exact hfresh w hw
  · simp [Checker.startedWith, hc.count]
  · exact forall_mem_append.2 ⟨hc.max, forall_mem_singleton.2 fun hne => absurd rfl hne⟩

variable {w : Transaction}

theorem ClusterOk.unique {w' : Transaction} (hw : w ∈ c.writes)
    (hw' : w' ∈ c.writes) (heq : w.serial = w'.serial) : w = w' :=
  inj_on_of_nodup_map hc.nodup hw hw' heq

def completedWith (c : WriteCluster) (serial tick : Nat) : WriteCluster :=
  { c with
    writes := c.writes.map (WriteCluster.setComplete serial tick)
    completeMax := max c.completeMax tick
    numIncomplete := c.numIncomplete - 1
    complete := if c.numIncomplete - 1 = 0 then max c.completeMax tick else c.complete }

def abortedWith (c : WriteCluster) (serial : Nat) : WriteCluster :=
  { c with
    writes := c.writes.filter (·.serial ≠ serial)
    numIncomplete := c.numIncomplete - 1
    complete :=
      if c.numIncomplete - 1 = 0 ∧ c.writes.filter (·.serial ≠ serial) ≠ [] then c.completeMax
      else c.complete }

theorem ClusterOk.num_pos (hw : w ∈ c.writes) (hf : w.complete = tickFuture) :
    c.numIncomplete ≠ 0 := by
  rw [hc.count]
  exact ne_of_gt (countP_pos_iff.2 ⟨w, hw, by simp [hf]⟩)

section

variable (hw : w ∈ c.writes) (hserial : w.serial = serial) (hf : w.complete = tickFuture)
include hw hserial hf

theorem completeWrite_eq : c.completeWrite serial tick = .ok (completedWith c serial tick) := by
  have hfind : c.writes.find? (fun w => decide (w.serial = serial)) = some w := by
    obtain ⟨w', hw'⟩ := Option.isSome_iff_exists.1
      (find?_isSome.2 ⟨w, hw, by simpa using hserial⟩ :
        (c.writes.find? fun w => decide (w.serial = serial)).isSome)
    have hs : w'.serial = serial := by simpa using find?_some hw'
    rw [hw', hc.unique (mem_of_find?_eq_some hw') hw (hs.trans hserial.symm)]
  have hdec : WriteCluster.decrement c.numIncomplete = c.numIncomplete - 1 :=
    if_neg (hc.num_pos hw hf)
  simp only [WriteCluster.completeWrite, hfind]
  rw [if_neg (by simp [hf]), hdec]
  rfl

theorem abortWrite_eq : c.abortWrite serial = abortedWith c serial := by
  have hany : c.writes.any (fun w => decide (w.serial = serial)) = true :=
    any_eq_true.2 ⟨w, hw, by simpa using hserial⟩
  have hdec : WriteCluster.decrement c.numIncomplete = c.numIncomplete - 1 :=
    if_neg (hc.num_pos hw hf)
  simp only [WriteCluster.abortWrite]
  rw [if_pos hany, hdec]
  rfl

end

end

@[simp] theorem setComplete_serial (w : Transaction) :
    (WriteCluster.setComplete serial tick w).serial = w.serial := by
  unfold WriteCluster.setComplete
  split <;> rfl

/-- Completing or removing the one write of a serial takes one outstanding write away. -/
theorem countP_others {l : List Transaction} (tick : Nat) (hnd : (l.map (·.serial)).Nodup)
    (hw : w ∈ l) (hserial : w.serial = serial) (hf : w.complete = tickFuture)
    (htick : tick ≠ tickFuture) :
    (l.map (WriteCluster.setComplete serial tick)).countP (·.complete = tickFuture) =
        l.countP (·.complete = tickFuture) - 1 ∧
      (l.filter (·.serial ≠ serial)).countP (·.complete = tickFuture) =
        l.countP (·.complete = tickFuture) - 1 := by
  obtain ⟨l₁, l₂, rfl⟩ := append_of_mem hw
  have hother : ∀ x ∈ l₁ ++ l₂, x.serial ≠ serial := by
    intro x hx heq
    have hperm : (l₁ ++ w :: l₂).Perm (w :: (l₁ ++ l₂)) := perm_middle
    have hnd' := nodup_cons.1 ((hperm.map _).nodup_iff.1 hnd)
    exact hnd'.1 (mem_map.2 ⟨x, hx, heq.trans hserial.symm⟩)
  have hmap : ∀ l' : List Transaction, (∀ x ∈ l', x.serial ≠ serial) →
      l'.map (WriteCluster.setComplete serial tick) = l' ∧ l'.filter (·.serial ≠ serial) = l' := by
    intro l' hl'
    have hid : l'.map (WriteCluster.setComplete serial tick) = l'.map id :=
      map_congr_left fun x hx => if_neg (hl' x hx)
    exact ⟨hid.trans (map_id l'), filter_eq_self.2 fun x hx => by simpa using hl' x hx⟩
  obtain ⟨hm₁, hf₁⟩ := hmap l₁ fun x hx => hother x (mem_append_left _ hx)
  obtain ⟨hm₂, hf₂⟩ := hmap l₂ fun x hx => hother x (mem_append_right _ hx)
  constructor
  · simp only [map_append, map_cons, hm₁, hm₂, countP_append, countP_cons,
      WriteCluster.setComplete, hserial, if_true, hf, htick, decide_true, decide_false]
    simp
  · rw [filter_append, filter_cons_of_neg (by simpa using hserial), hf₁, hf₂]
    simp only [countP_append, countP_cons, hf, decide_true, if_true]
    omega

end

section
variable {e : Env} {h : History} {cs : List WriteCluster} {m k tick : Nat} {o : ByteOp}

variable {c : WriteCluster}

section

variable (hc : ClusterOk c) (hw : w ∈ c.writes) (hserial : w.serial = k)
  (hf : w.complete = tickFuture) (hincomplete : c.complete = tickFuture)
include hc hw hserial hf hincomplete

theorem ClusterOk.completedWith (htick : tick < tickFuture) :
    ClusterOk (completedWith c k tick) := by
  unfold Checker.completedWith
  have hmax : Nat.max c.completeMax tick < tickFuture := Nat.max_lt.2 ⟨hc.maxLt, htick⟩
  refine ⟨?_, ?_, fun w' hw' hne => ?_, hmax, ?_⟩
  · simpa [Function.comp_def] using hc.nodup
  · rw [(countP_others tick hc.nodup hw hserial hf (ne_of_lt htick)).1, hc.count]
  · obtain ⟨w₀, hw₀, rfl⟩ := mem_map.1 hw'
    unfold WriteCluster.setComplete at hne ⊢
    split
    · exact le_max_right _ _
    · rename_i hs
      rw [if_neg hs] at hne
      exact (hc.max w₀ hw₀ hne).trans (le_max_left _ _)
  · by_cases hz : c.numIncomplete - 1 = 0
    · refine .inr ⟨?_, ?_, hz, ?_⟩
      · rw [if_pos hz]
        exact ne_of_lt hmax
      · rw [if_pos hz]
      · simpa using ne_nil_of_mem hw
    · refine .inl ⟨?_, .inl hz⟩
      rw [if_neg hz, hincomplete]

theorem ClusterOk.abortedWith : ClusterOk (abortedWith c k) := by
  unfold Checker.abortedWith
  refine ⟨hc.nodup.sublist (filter_sublist.map _), ?_, fun w' hw' hne => ?_, hc.maxLt, ?_⟩
  · rw [(countP_others 0 hc.nodup hw hserial hf (by decide)).2, hc.count]
  · exact hc.max w' (mem_filter.1 hw').1 hne
  · by_cases hz : c.numIncomplete - 1 = 0 ∧ c.writes.filter (·.serial ≠ k) ≠ []
    · refine .inr ⟨?_, ?_, hz.1, hz.2⟩
      · rw [if_pos hz]
        exact ne_of_lt hc.maxLt
      · rw [if_pos hz]
    · refine .inl ⟨?_, ?_⟩
      · rw [if_neg hz, hincomplete]
      · by_cases hn : c.numIncomplete - 1 = 0
        · right
          by_contra hne
          exact hz ⟨hn, hne⟩
        · exact .inl hn

end

/-! ## Calls on the clusters of a byte -/

theorem ClustersOk.startWrite (he : EnvOk e) (hok : HistoryOk m h) (hm : m < e.calls)
    (hcs : ClustersOk e h cs) (hst : Started e h cs) (hk : h k = none)
    (ho : o = ⟨true, o.data, m, .pending⟩) :
    ∃ cs', onIncompleteWriteCluster (·.startWrite k (e.clock m) o.data) cs = .ok cs' ∧
      ClustersOk e (h.set k o) cs' ∧ Started e (h.set k o) cs' := by
  obtain ⟨pre, c, hopen, hcs'⟩ := hcs.opens
  have hc := hcs'.cluster c (by simp)
  have hfresh : ∀ w ∈ c.writes, w.serial ≠ k := by
    intro w hw heq
    obtain ⟨o', ho', -⟩ := hcs'.isWrite c (by simp) w hw
    rw [heq, hk] at ho'
    cases ho'
  have hstart : c.start = tickFuture ∨ c.start ≤ e.clock m := by
    rcases hopen.same with heq | ⟨-, rfl⟩
    · obtain ⟨k', o', ho', -, hs⟩ := hst c (by simp [heq])
      exact .inr (hs ▸ he.mono _ _ (le_of_lt (hok.start_lt k' o' ho')) hm)
    · exact .inl rfl
  have hisWrite : IsWrite e (h.set k o) ⟨k, e.clock m, tickFuture, o.data⟩ :=
    ⟨o, h.set_self k o, by rw [ho], rfl, by rw [ho], .inl ⟨by rw [ho], rfl⟩⟩
  refine ⟨_, hopen.run (startWrite_eq hopen.incomplete hstart hfresh), ?_, ?_⟩
  · refine hcs'.replaceLast hok (becomes_of_none hk) (by rw [ho])
      (hc.startedWith hfresh) ?_ ?_ ?_ ?_ ?_
    · refine forall_mem_append.2 ⟨fun w hw => ?_, forall_mem_singleton.2 hisWrite⟩
      exact (hcs'.isWrite c (by simp) w hw).set (hfresh w hw)
    · exact forall_mem_append.2 ⟨fun w hw _ => ⟨w, hw, rfl⟩,
        forall_mem_singleton.2 fun hne => absurd rfl hne⟩
    · exact fun w hw _ => ⟨w, mem_append_left _ hw, rfl⟩
    · exact fun _ => ⟨_, mem_append_right _ (mem_singleton_self _), rfl⟩
    · intro a ha w hw
      obtain ⟨-, o', d, ho', hd⟩ := hcs'.earlier ha hw
      have hne : w.serial ≠ k := by
        intro heq
        rw [heq, hk] at ho'
        cases ho'
      refine ⟨o', d, o, (h.set_ne o hne).trans ho', hd, h.set_self k o, ?_⟩
      rw [ho]
      exact (hok.complete_lt _ _ _ ho' hd).2
  · intro a ha
    have hset := hst.set (o := o) (becomes_of_none hk)
    rcases mem_append.1 ha with ha | ha
    · refine hset a ?_
      rcases hopen.same with heq | ⟨heq, -⟩ <;> simp [heq, ha]
    · rw [mem_singleton.1 ha]
      rcases hopen.same with heq | ⟨-, rfl⟩
      · obtain ⟨k', o', ho', hw', hs⟩ := hset c (by simp [heq])
        obtain ⟨k₁, o₁, h₁, -, hs₁⟩ := hst c (by simp [heq])
        have hlt := he.lt _ ((hok.start_lt k₁ o₁ h₁).trans hm)
        refine ⟨k', o', ho', hw', ?_⟩
        simp only [startedWith]
        rw [if_neg (by omega)]
        exact hs
      · refine ⟨k, o, h.set_self k o, by rw [ho], ?_⟩
        rw [ho]
        rfl

/-- The end of an outstanding write changes only the last cluster, which is not new. -/
theorem Started.finish (hst : Started e h cs)
    (hopen : Opens cs pre c) (hne : c.writes ≠ []) (hstart : c'.start = c.start)
    (hk : Becomes h k o) :
    Started e (h.set k o) (pre ++ [c']) := by
  have hset := hst.set hk
  have hcs : cs = pre ++ [c] := by
    rcases hopen.same with heq | ⟨-, rfl⟩
    · exact heq
    · exact absurd rfl hne
  intro a ha
  rcases mem_append.1 ha with ha | ha
  · exact hset a (by simp [hcs, ha])
  · rw [mem_singleton.1 ha, hstart]
    exact hset c (by simp [hcs])

theorem ClustersOk.before_last (hcs : ClustersOk e h (pre ++ [c])) (hw : w ∈ c.writes)
    (hserial : w.serial = k)
    (hk : Becomes h k o) : ∀ a ∈ pre, ∀ w' ∈ a.writes, CallsBefore (h.set k o) w'.serial k := by
  intro a ha w' hw'
  have hb := ((pairwise_append.1 hcs.ordered).2.2 a ha c (by simp)).2 w' hw' w hw
  rw [hserial] at hb
  exact hb.set hk

theorem ClustersOk.completeWrite (he : EnvOk e) (hok : HistoryOk m h) (hm : m < e.calls)
    (hcs : ClustersOk e h cs) (hst : Started e h cs) (hk : h k = some o) (hwrite : o.isWrite = true)
    (hp : o.status = .pending) :
    ∃ cs', onIncompleteWriteCluster (·.completeWrite k (e.clock m)) cs = .ok cs' ∧
      ClustersOk e (h.set k { o with status := .complete m }) cs' ∧
      Started e (h.set k { o with status := .complete m }) cs' := by
  obtain ⟨pre, c, hopen, hcs'⟩ := hcs.opens
  have hc := hcs'.cluster c (by simp)
  obtain ⟨w, hw, hserial, hf⟩ := hcs'.mem_last hk hwrite hp
  have htick := he.lt m hm
  have hold : Becomes h k { o with status := .complete m } := becomes_of_pending hk hp rfl rfl
  refine ⟨_, hopen.run (completeWrite_eq hc hw hserial hf), ?_, ?_⟩
  · refine hcs'.replaceLast hok hold hwrite
      (hc.completedWith hw hserial hf hopen.incomplete htick) ?_ ?_ ?_ ?_ ?_
    · intro w' hw'
      obtain ⟨w₀, hw₀, rfl⟩ := mem_map.1 hw'
      by_cases hs : w₀.serial = k
      · obtain ⟨o', ho', -, hdata, hstart, -⟩ := hcs'.isWrite c (by simp) w₀ hw₀
        rw [hs, hk] at ho'
        cases ho'
        simp only [WriteCluster.setComplete, if_pos hs]
        exact ⟨{ o with status := .complete m }, by simp [hs], hwrite, hdata, hstart,
          .inr ⟨m, rfl, rfl⟩⟩
      · simp only [WriteCluster.setComplete, if_neg hs]
        exact (hcs'.isWrite c (by simp) w₀ hw₀).set hs
    · intro w' hw' _
      obtain ⟨w₀, hw₀, rfl⟩ := mem_map.1 hw'
      exact ⟨w₀, hw₀, (setComplete_serial w₀).symm⟩
    · exact fun w' hw' _ => ⟨_, mem_map_of_mem hw', setComplete_serial w'⟩
    · exact fun _ => ⟨_, mem_map_of_mem hw, (setComplete_serial w).trans hserial⟩
    · exact hcs'.before_last hw hserial hold
  · exact hst.finish hopen (ne_nil_of_mem hw) rfl hold

theorem ClustersOk.abortWrite (hok : HistoryOk m h) (hcs : ClustersOk e h cs) (hst : Started e h cs)
    (hk : h k = some o) (hwrite : o.isWrite = true) (hp : o.status = .pending) :
    ∃ cs', onIncompleteWriteCluster (fun c => .ok (c.abortWrite k)) cs = .ok cs' ∧
      ClustersOk e (h.set k { o with status := .aborted }) cs' ∧
      Started e (h.set k { o with status := .aborted }) cs' := by
  obtain ⟨pre, c, hopen, hcs'⟩ := hcs.opens
  have hc := hcs'.cluster c (by simp)
  obtain ⟨w, hw, hserial, hf⟩ := hcs'.mem_last hk hwrite hp
  have hold : Becomes h k { o with status := .aborted } := becomes_of_pending hk hp rfl rfl
  have hmem : ∀ w' ∈ (abortedWith c k).writes, w' ∈ c.writes ∧ w'.serial ≠ k := by
    intro w' hw'
    simpa using mem_filter.1 hw'
  refine ⟨_, hopen.run (congrArg _ (abortWrite_eq hc hw hserial hf)), ?_, ?_⟩
  · refine hcs'.replaceLast hok hold hwrite
      (hc.abortedWith hw hserial hf hopen.incomplete) ?_ ?_ ?_ ?_ ?_
    · exact fun w' hw' => (hcs'.isWrite c (by simp) w' (hmem w' hw').1).set (hmem w' hw').2
    · exact fun w' hw' _ => ⟨w', (hmem w' hw').1, rfl⟩
    · exact fun w' hw' hne => ⟨w', mem_filter.2 ⟨hw', by simpa using hne⟩, rfl⟩
    · exact absurd rfl
    · exact hcs'.before_last hw hserial hold
  · exact hst.finish hopen (ne_nil_of_mem hw) rfl hold

/-! ## Pruning -/

theorem scanBack_spec (completes : List Nat) (before i : Nat) :
    scanBack completes before i ≤ i ∧
      (scanBack completes before i = 0 ∨
        completes.getD (scanBack completes before i) 0 < before) := by
  induction i with
  | zero => exact ⟨le_rfl, .inl rfl⟩
  | succ i ih =>
    unfold scanBack
    split
    · exact ⟨ih.1.trans (Nat.le_succ i), ih.2⟩
    · rename_i hlt
      exact ⟨le_rfl, .inr (not_le.1 hlt)⟩

theorem lastCompleted_spec {α : Type} (complete : α → Nat) {l : List α} (hne : l ≠ [])
    (before : Nat) :
    ∃ l₁ x l₂, l = l₁ ++ x :: l₂ ∧ (l₁ = [] ∨ complete x < before) ∧
      lastCompletedTransaction (l.map complete) before = .ok l₁.length := by
  have hlen : 0 < l.length := length_pos_iff.2 hne
  obtain ⟨hle, hor⟩ := scanBack_spec (l.map complete) before ((l.map complete).length - 1)
  rw [lastCompletedTransaction, if_neg (by simpa using hne)]
  generalize scanBack (l.map complete) before ((l.map complete).length - 1) = j at hle hor ⊢
  rw [length_map] at hle
  have hj : j < l.length := by omega
  refine ⟨l.take j, l[j], l.drop (j + 1), ?_, ?_, ?_⟩
  · rw [getElem_cons_drop, take_append_drop]
  · rcases hor with h0 | hlt
    · exact .inl (by simp [h0])
    · right
      simpa [getD_eq_getElem?_getD, hj] using hlt
  · rw [length_take, min_eq_left (le_of_lt hj)]

/-- Clusters before one that is complete before all outstanding reads are not needed. -/
theorem ClustersOk.drop {cs₁ cs₂ : List WriteCluster} {before : Nat} (he : EnvOk e)
    (hok : HistoryOk e.calls h) (hcs : ClustersOk e h (cs₁ ++ c :: cs₂)) (hc : c.complete < before)
    (hreads : ∀ i r, h i = some r → r.isWrite = false → r.status = .pending →
      before ≤ e.clock r.start) (hbefore : before ≤ tickFuture) : ClustersOk e h (c :: cs₂) := by
  have hsub : ∀ a ∈ c :: cs₂, a ∈ cs₁ ++ c :: cs₂ := fun a ha => mem_append_right _ ha
  have hord := pairwise_append.1 hcs.ordered
  refine ⟨fun a ha => hcs.cluster a (hsub a ha), fun a ha => hcs.isWrite a (hsub a ha),
    hord.2.1, ?_⟩
  intro k o hk hwrite hab
  rcases hcs.all k o hk hwrite hab with ⟨a, ha, w, hw, heq⟩ | hov
  · rcases mem_append.1 ha with ha | ha
    · right
      -- a write of `c` comes after it
      have hcin : c ∈ cs₁ ++ c :: cs₂ := by simp
      obtain ⟨hne, hall⟩ := (hcs.cluster c hcin).complete_iff (by omega)
      obtain ⟨w', hw'⟩ := exists_mem_of_ne_nil _ hne
      obtain ⟨o', ho', hwrite', -, -, hp | ⟨d, hd, hdc⟩⟩ := hcs.isWrite c hcin w' hw'
      · exact absurd hp.2 (hall w' hw').1
      · refine ⟨w'.serial, o', d, heq ▸ (hord.2.2 a ha c mem_cons_self).2 w hw w' hw', ho', hwrite',
          hd, fun i r hi hr hpend => ?_⟩
        have hle := hreads i r hi hr hpend
        have hcle := (hall w' hw').2
        exact he.lt_of_clock (hok.complete_lt _ _ _ ho' hd).2 (by omega)
    · exact .inl ⟨a, ha, w, hw, heq⟩
  · exact .inr hov

end

end Gem5Cxl.L3.Checker
