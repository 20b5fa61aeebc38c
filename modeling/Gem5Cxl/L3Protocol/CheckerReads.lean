import Gem5Cxl.L3Protocol.CheckerClusters

/-!
# The tracker of a byte against its history

`TrackerOk` adds to `ClustersOk` that the outstanding reads and the observations are reads
of the history, and that the first observation is older than every read that can still be
checked. One lemma for each call on a tracker.

The check itself is `inExpectedData_spec`: no assertion fails, and if the history with the
read complete is linearizable, the answer is yes. Both need two conditions on ticks
(`Apart`): the tick at which the read completes is not one at which a write of the byte
started, and a write that is complete at the tick at which the read started was complete
when it started.
-/
namespace Gem5Cxl.L3.Checker

open Core Core.Register L1 L2.Checker ByteTracker List

/-- The transaction is an outstanding read of the history. -/
def IsRead (e : Env) (h : History) (r : Transaction) : Prop :=
  ∃ o, h r.serial = some o ∧ o.isWrite = false ∧ o.status = .pending ∧ r.start = e.clock o.start

/-- The transaction is a complete read of the history, or the initial one. -/
def IsObservation (e : Env) (h : History) (r : Transaction) : Prop :=
  r = ByteTracker.initial ∨ ∃ o c, h r.serial = some o ∧ o.isWrite = false ∧ o.status = .complete c ∧
    r.data = o.data ∧ r.start = e.clock o.start ∧ r.complete = e.clock c

structure TrackerOk (e : Env) (h : History) (t : ByteTracker) : Prop where
  clusters : ClustersOk e h t.writeClusters
  started : Started e h t.writeClusters
  reads : ∀ r ∈ t.outstandingReads, IsRead e h r
  readsAll : ∀ k o, h k = some o → o.isWrite = false → o.status = .pending →
    ∃ r ∈ t.outstandingReads, r.serial = k
  sorted : t.outstandingReads.Pairwise fun a b => a.serial < b.serial ∧ a.start ≤ b.start
  observations : ∀ r ∈ t.readObservations, IsObservation e h r
  first : ∃ x xs, t.readObservations = x :: xs ∧ (∀ r ∈ t.outstandingReads, x.complete < r.start) ∧
    (x.complete = 0 ∨ x.complete < e.now)

theorem TrackerOk.new (e : Env) : TrackerOk e (fun _ => none) .new where
  clusters := ⟨nofun, nofun, .nil, nofun⟩
  started := nofun
  reads := nofun
  readsAll := nofun
  sorted := .nil
  observations := fun _ hr => .inl (mem_singleton.1 hr)
  first := ⟨initial, [], rfl, nofun, .inl rfl⟩

section
variable {e : Env} {h : History} {t : ByteTracker} {m k tick : Nat} {o : ByteOp}

theorem TrackerOk.later (hok : HistoryOk e.calls h) (hnow : e.now ≤ tick) (ht : TrackerOk e h t) :
    TrackerOk (e.call tick) h t where
  clusters := ht.clusters.later hok
  started := ht.started.later hok
  reads := by
    intro r hr
    obtain ⟨o, ho, hread, hp, hstart⟩ := ht.reads r hr
    exact ⟨o, ho, hread, hp, (Env.call_clock (hok.start_lt _ _ ho)).symm ▸ hstart⟩
  readsAll := ht.readsAll
  sorted := ht.sorted
  observations := by
    intro r hr
    rcases ht.observations r hr with hi | ⟨o, c, ho, hread, hc, hdata, hstart, hcomplete⟩
    · exact .inl hi
    · refine .inr ⟨o, c, ho, hread, hc, hdata, ?_, ?_⟩
      · rw [Env.call_clock (hok.start_lt _ _ ho), hstart]
      · rw [Env.call_clock (hok.complete_lt _ _ _ ho hc).2, hcomplete]
  first := by
    obtain ⟨x, xs, hx, hreads, hlt⟩ := ht.first
    exact ⟨x, xs, hx, hreads, hlt.imp id fun hlt => lt_of_lt_of_le hlt hnow⟩

/-! ## Changes at one serial -/

variable {r : Transaction}

theorem IsRead.set (hne : r.serial ≠ k) (hr : IsRead e h r) : IsRead e (h.set k o) r := by
  obtain ⟨o', ho', hrest⟩ := hr
  exact ⟨o', (h.set_ne o hne).trans ho', hrest⟩

theorem IsObservation.set (hk : Becomes h k o) (hr : IsObservation e h r) :
    IsObservation e (h.set k o) r := by
  rcases hr with hi | ⟨o', c, ho', hread, hc, hrest⟩
  · exact .inl hi
  · have hne : r.serial ≠ k := by
      intro heq
      exact (hk o' (heq ▸ ho')).2.2 c hc
    exact .inr ⟨o', c, (h.set_ne o hne).trans ho', hread, hc, hrest⟩

theorem TrackerOk.setWrite {cs : List WriteCluster} (ht : TrackerOk e h t)
    (hcs : ClustersOk e (h.set k o) cs) (hst : Started e (h.set k o) cs)
    (hk : Becomes h k o) (hwrite : o.isWrite = true) :
    TrackerOk e (h.set k o) { t with writeClusters := cs } where
  clusters := hcs
  started := hst
  reads := by
    intro r hr
    refine (ht.reads r hr).set ?_
    rintro rfl
    obtain ⟨o', ho', hread, -⟩ := ht.reads r hr
    simp [← (hk o' ho').2.1, hwrite] at hread
  readsAll := by
    intro k' o' hk' hread hp
    rcases History.set_cases hk' with ⟨-, rfl⟩ | ⟨-, hk'⟩
    · simp [hwrite] at hread
    · exact ht.readsAll k' o' hk' hread hp
  sorted := ht.sorted
  observations := fun r hr => (ht.observations r hr).set hk
  first := ht.first

/-! ## Starting a read -/

theorem insertRead_last {l : List Transaction} (hl : ∀ r' ∈ l, r'.serial < r.serial) :
    insertRead r l = l ++ [r] := by
  induction l with
  | nil => rfl
  | cons r' l ih =>
    have hlt := hl r' mem_cons_self
    simp only [insertRead]
    rw [if_neg (by omega), if_neg (by omega), ih fun x hx => hl x (mem_cons_of_mem _ hx)]
    rfl

theorem TrackerOk.startRead (he : EnvOk e) (hok : HistoryOk m h) (hm : e.calls = m + 1)
    (hnow : e.clock m = e.now) (ht : TrackerOk e h t) (hk : ∀ k' o', h k' = some o' → k' < k)
    (ho : o = ⟨false, o.data, m, .pending⟩) :
    TrackerOk e (h.set k o) (t.startRead k (e.clock m)) := by
  have hnew : Becomes h k o := fun o' hk' => absurd (hk k o' hk') (lt_irrefl k)
  have hserial : ∀ r ∈ t.outstandingReads, r.serial < k := by
    intro r hr
    obtain ⟨o', ho', -⟩ := ht.reads r hr
    exact hk _ o' ho'
  have hreads : (t.startRead k (e.clock m)).outstandingReads =
      t.outstandingReads ++ [⟨k, e.clock m, tickFuture, dataInitial⟩] := insertRead_last hserial
  have hpos : 0 < e.clock m := he.pos m (by omega)
  refine ⟨?_, ht.started.set hnew, ?_, ?_, ?_, ?_, ?_⟩
  · exact ht.clusters.setRead hok hnew (by rw [ho]) fun _ => by rw [ho]
  · rw [hreads]
    refine forall_mem_append.2 ⟨fun r hr => (ht.reads r hr).set (ne_of_lt (hserial r hr)), forall_mem_singleton.2 ?_⟩
    exact ⟨o, h.set_self k o, by rw [ho], by rw [ho], by rw [ho]⟩
  · intro k' o' hk' hread hp
    rw [hreads]
    rcases History.set_cases hk' with ⟨rfl, -⟩ | ⟨-, hk'⟩
    · exact ⟨_, mem_append_right _ (mem_singleton_self _), rfl⟩
    · obtain ⟨r, hr, heq⟩ := ht.readsAll k' o' hk' hread hp
      exact ⟨r, mem_append_left _ hr, heq⟩
  · rw [hreads]
    refine pairwise_append.2 ⟨ht.sorted, pairwise_singleton _ _, fun a ha b hb => ?_⟩
    rw [mem_singleton.1 hb]
    obtain ⟨o', ho', -, -, hs⟩ := ht.reads a ha
    refine ⟨hserial a ha, ?_⟩
    rw [hs]
    exact he.mono _ _ (le_of_lt (hok.start_lt _ _ ho')) (by omega)
  · exact fun r hr => (ht.observations r hr).set hnew
  · obtain ⟨x, xs, hx, hlt, hor⟩ := ht.first
    refine ⟨x, xs, hx, ?_, hor⟩
    rw [hreads]
    refine forall_mem_append.2 ⟨hlt, forall_mem_singleton.2 ?_⟩
    rcases hor with h0 | hlt'
    · rwa [h0]
    · rwa [hnow]

/-! ## Pruning -/

theorem TrackerOk.pruneBefore_le (he : EnvOk e) (hok : HistoryOk e.calls h) (ht : TrackerOk e h t) :
    t.pruneBefore e.now ≤ e.now ∧ ∀ r ∈ t.outstandingReads, t.pruneBefore e.now ≤ r.start := by
  have hstart : ∀ r ∈ t.outstandingReads, r.start ≤ e.now := by
    intro r hr
    obtain ⟨o, ho, -, -, hs⟩ := ht.reads r hr
    exact hs ▸ he.last _ (hok.start_lt _ _ ho)
  have hsorted := ht.sorted
  unfold pruneBefore
  split
  · rename_i hnil
    exact ⟨le_rfl, by simp [hnil]⟩
  · rename_i r rs hr
    rw [hr] at hsorted hstart ⊢
    refine ⟨hstart r mem_cons_self, forall_mem_cons.2 ⟨le_rfl, fun r' hr' => ?_⟩⟩
    exact ((pairwise_cons.1 hsorted).1 r' hr').2

theorem TrackerOk.prune (he : EnvOk e) (hok : HistoryOk e.calls h) (hfuture : e.now < tickFuture)
    (ht : TrackerOk e h t) : ∃ t', t.pruneTransactions e.now = .ok t' ∧ TrackerOk e h t' := by
  obtain ⟨hbnow, hbreads⟩ := ht.pruneBefore_le he hok
  generalize hb : t.pruneBefore e.now = before at hbnow hbreads
  obtain ⟨x, xs, hx, hxreads, hxor⟩ := ht.first
  -- the observations
  obtain ⟨l₁, y, l₂, hl, hy, hrun⟩ := lastCompleted_spec (·.complete) (l := t.readObservations)
    (by simp [hx]) before
  have hdrop : t.readObservations.drop l₁.length = y :: l₂ := by rw [hl, drop_left]
  have hyfirst : (∀ r ∈ t.outstandingReads, y.complete < r.start) ∧ (y.complete = 0 ∨ y.complete < e.now) := by
    rcases hy with rfl | hlt
    · rw [hx] at hl
      cases hl
      exact ⟨hxreads, hxor⟩
    · exact ⟨fun r hr => lt_of_lt_of_le hlt (hbreads r hr), .inr (lt_of_lt_of_le hlt hbnow)⟩
  have ht' : TrackerOk e h { t with readObservations := y :: l₂ } :=
    { ht with
      observations := fun r hr => ht.observations r (hl ▸ mem_append_right _ hr)
      first := ⟨y, l₂, rfl, hyfirst.1, hyfirst.2⟩ }
  have hrun' : t.pruneTransactions e.now =
      { t with readObservations := y :: l₂ }.pruneClusters before := by
    simp only [pruneTransactions, hb, hrun, ok_bind, hdrop]
  rw [hrun']
  -- the clusters
  unfold pruneClusters
  split
  · exact ⟨_, rfl, ht'⟩
  · rename_i hne
    obtain ⟨cs₁, c, cs₂, hcs, hc, hrun⟩ := lastCompleted_spec (·.complete) hne before
    have hcs' : t.writeClusters = cs₁ ++ c :: cs₂ := hcs
    have hdrop : t.writeClusters.drop cs₁.length = c :: cs₂ := by rw [hcs', drop_left]
    simp only [hrun, ok_bind, hdrop]
    refine ⟨_, rfl, ?_⟩
    refine { ht' with clusters := ?_, started := fun a ha => ht.started a (hcs' ▸ mem_append_right _ ha) }
    have hold : ClustersOk e h (cs₁ ++ c :: cs₂) := hcs' ▸ ht.clusters
    rcases hc with rfl | hlt
    · exact hold
    · refine hold.drop he hok hlt ?_ (by omega)
      intro i r hi hread hp
      obtain ⟨r', hr', heq⟩ := ht.readsAll i r hi hread hp
      obtain ⟨o', ho', -, -, hs⟩ := ht.reads r' hr'
      rw [heq, hi] at ho'
      cases ho'
      exact hs ▸ hbreads r' hr'

/-! ## Writes -/

theorem TrackerOk.startWrite (he : EnvOk e) (hok : HistoryOk m h) (hm : m < e.calls)
    (ht : TrackerOk e h t) (hk : h k = none) (ho : o = ⟨true, o.data, m, .pending⟩) :
    ∃ t', t.startWrite k (e.clock m) o.data = .ok t' ∧ TrackerOk e (h.set k o) t' := by
  obtain ⟨cs, hrun, hcs, hst⟩ := ht.clusters.startWrite he hok hm ht.started hk ho
  refine ⟨{ t with writeClusters := cs }, ?_, ht.setWrite hcs hst (becomes_of_none hk) (by rw [ho])⟩
  simp only [ByteTracker.startWrite, hrun]
  rfl

theorem TrackerOk.completeWrite (he : EnvOk e) (hok : HistoryOk m h) (hm : e.calls = m + 1)
    (hnow : e.clock m = e.now) (ht : TrackerOk e h t) (hk : h k = some o)
    (hwrite : o.isWrite = true) (hp : o.status = .pending) :
    ∃ t', t.completeWrite e.now k (e.clock m) = .ok t' ∧
      TrackerOk e (h.set k { o with status := .complete m }) t' := by
  have hlt : m < e.calls := by omega
  obtain ⟨cs, hrun, hcs, hst⟩ := ht.clusters.completeWrite he hok hlt ht.started hk hwrite hp
  have hset := ht.setWrite hcs hst (becomes_of_pending hk hp rfl rfl) hwrite
  have hok' : HistoryOk e.calls (h.set k { o with status := .complete m }) :=
    hm ▸ hok.finish _ hk rfl (.inl rfl)
  obtain ⟨t', hprune, ht'⟩ := hset.prune he hok' (hnow ▸ he.lt m hlt)
  refine ⟨t', ?_, ht'⟩
  simp only [ByteTracker.completeWrite, hrun, ok_bind]
  exact hprune

theorem TrackerOk.abortWrite (hok : HistoryOk m h) (ht : TrackerOk e h t) (hk : h k = some o)
    (hwrite : o.isWrite = true) (hp : o.status = .pending) :
    ∃ t', t.abortWrite k = .ok t' ∧ TrackerOk e (h.set k { o with status := .aborted }) t' := by
  obtain ⟨cs, hrun, hcs, hst⟩ := ht.clusters.abortWrite hok ht.started hk hwrite hp
  refine ⟨{ t with writeClusters := cs }, ?_, ht.setWrite hcs hst (becomes_of_pending hk hp rfl rfl) hwrite⟩
  simp only [ByteTracker.abortWrite, hrun]
  rfl

end

/-! ## The scan -/

section
variable {lastObs : Transaction} {start : Nat} {data : BitVec 8} {ws : List Transaction}

/-- What a scan without a match says about the writes it went through. -/
structure ScanOf (lastObs : Transaction) (start : Nat) (data : BitVec 8) (ws : List Transaction)
    (s s' : ByteTracker.Scan) : Prop where
  other : ∀ w ∈ ws, w.complete < lastObs.start ∨ w.data ≠ data
  overlap : s'.wcOverlap = true ↔
    s.wcOverlap = true ∧ ∀ w ∈ ws, w.complete < lastObs.start ∨ start < w.complete
  valid : s'.lastObsValid = true ↔ s.lastObsValid = true ∧
    ∀ w ∈ ws, w.complete < lastObs.start ∨ start < w.complete ∨ w.start ≤ lastObs.complete
  none : s'.lastExpectedData = [] ↔ s.lastExpectedData = [] ∧ ∀ w ∈ ws, w.complete < lastObs.start

theorem ScanOf.nil (s : Scan) : ScanOf lastObs start data [] s s :=
  ⟨nofun, by simp, by simp, by simp⟩

theorem ScanOf.append {ws' : List Transaction} {s s₁ s₂ : Scan}
    (h₁ : ScanOf lastObs start data ws s s₁) (h₂ : ScanOf lastObs start data ws' s₁ s₂) :
    ScanOf lastObs start data (ws ++ ws') s s₂ := by
  refine ⟨fun w hw => ?_, ?_, ?_, ?_⟩
  · exact (mem_append.1 hw).elim (h₁.other w) (h₂.other w)
  · rw [h₂.overlap, h₁.overlap, forall_mem_append, and_assoc]
  · rw [h₂.valid, h₁.valid, forall_mem_append, and_assoc]
  · rw [h₂.none, h₁.none, forall_mem_append, and_assoc]

theorem ScanOf.cons {w : Transaction} {s s₁ s₂ : Scan}
    (h₁ : ScanOf lastObs start data [w] s s₁) (h₂ : ScanOf lastObs start data ws s₁ s₂) :
    ScanOf lastObs start data (w :: ws) s s₂ := h₁.append h₂

theorem scanWrites_spec (ws : List Transaction) (s : Scan)
    (hfound : (scanWrites lastObs start data ws s).found = false) :
    ScanOf lastObs start data ws s (scanWrites lastObs start data ws s) := by
  induction ws generalizing s with
  | nil => exact .nil s
  | cons w ws ih =>
    unfold scanWrites at hfound ⊢
    by_cases hskip : w.complete < lastObs.start
    · rw [if_pos hskip] at hfound ⊢
      exact .cons ⟨by simp [hskip], by simp [hskip], by simp [hskip], by simp [hskip]⟩
        (ih s hfound)
    rw [if_neg hskip] at hfound ⊢
    by_cases hdata : w.data = data
    · rw [if_pos hdata] at hfound
      cases hfound
    rw [if_neg hdata] at hfound ⊢
    by_cases hover : start < w.complete
    · simp only [if_pos hover] at hfound ⊢
      exact .cons ⟨by simp [hdata], by simp [hover], by simp [hover], by simp [hskip]⟩
        (ih _ hfound)
    simp only [if_neg hover] at hfound ⊢
    by_cases hlate : lastObs.complete < w.start
    · simp only [if_pos hlate] at hfound ⊢
      exact .cons
        ⟨by simp [hdata], by simp [hover, hskip], by simp [hover, hskip, hlate], by simp [hskip]⟩ (ih _ hfound)
    · simp only [if_neg hlate] at hfound ⊢
      exact .cons
        ⟨by simp [hdata], by simp [hover, hskip], by simp [not_lt.1 hlate], by simp [hskip]⟩ (ih _ hfound)

/-- The scan goes through the clusters, the last one first, up to one with a write complete before
the read started. -/
theorem scanClusters_spec (cs : List WriteCluster) (s : Scan) (hs : s.wcOverlap = true)
    (hfound : (scanClusters lastObs start data cs s).found = false) :
    ∃ seen rest, cs = seen ++ rest ∧
      ScanOf lastObs start data (seen.flatMap (·.writes)) s
        (scanClusters lastObs start data cs s) ∧
      (rest = [] ∨ (scanClusters lastObs start data cs s).wcOverlap = false) := by
  induction cs generalizing s with
  | nil => exact ⟨[], [], rfl, .nil s, .inl rfl⟩
  | cons c cs ih =>
    unfold scanClusters at hfound ⊢
    simp only [if_pos hs] at hfound ⊢
    cases hc : (scanWrites lastObs start data c.writes s).found with
    | true => simp [hc] at hfound
    | false =>
      have hscan := scanWrites_spec c.writes s hc
      simp only [hc, Bool.false_eq_true, if_false] at hfound ⊢
      generalize scanWrites lastObs start data c.writes s = s₁ at hscan hfound ⊢
      cases hw : s₁.wcOverlap with
      | true =>
        obtain ⟨seen, rest, hcs, hrest, hor⟩ := ih s₁ hw hfound
        exact ⟨c :: seen, rest, by rw [hcs]; rfl, hscan.append hrest, hor⟩
      | false =>
        have hend : scanClusters lastObs start data cs s₁ = s₁ := by
          cases cs with
          | nil => rfl
          | cons c' cs' => simp [scanClusters, hw]
        rw [hend]
        exact ⟨[c], cs, rfl, by simpa using hscan, .inr hw⟩

end

/-! ## The check -/

theorem mem_ops_complete {h : History} {k c : Nat} {o : ByteOp} (hk : h k = some o)
    (hc : o.status = .complete c) :
    (⟨o.isWrite, o.data, o.start, some c⟩ : Op (BitVec 8)) ∈ ops h :=
  ⟨k, o, hk, by simp [ByteOp.toOp, hc]⟩

/-- An outstanding read is complete with call `m`, the last one. -/
structure Checks (e : Env) (h : History) (t : ByteTracker) (m k : Nat) (o : ByteOp)
    (r : Transaction) :
    Prop where
  env : EnvOk e
  hist : HistoryOk m h
  calls : e.calls = m + 1
  now : e.clock m = e.now
  tracker : TrackerOk e h t
  op : h k = some o
  read : o.isWrite = false
  pending : o.status = .pending
  mem : r ∈ t.outstandingReads
  serial : r.serial = k
  writesApart : ∀ k' o', h k' = some o' → o'.isWrite = true → e.clock o'.start ≠ e.now
  readsApart : ∀ k' o' c, h k' = some o' → o'.isWrite = true → o'.status = .complete c →
    c < o.start ∨ e.clock o.start < e.clock c

def ByteOp.done (o : ByteOp) (data : BitVec 8) (m : Nat) : ByteOp :=
  { o with data, status := .complete m }

variable {e : Env} {h : History} {t : ByteTracker} {m k : Nat} {o : ByteOp} {r x w : Transaction}
  {d : BitVec 8}

namespace Checks

section
variable (hc : Checks e h t m k o r)
include hc

theorem start_eq : r.start = e.clock o.start := by
  obtain ⟨o', ho', -, -, hs⟩ := hc.tracker.reads r hc.mem
  rw [hc.serial, hc.op] at ho'
  cases ho'
  exact hs

theorem start_lt : r.start < tickFuture := by
  rw [hc.start_eq]
  exact hc.env.lt _ (by have := hc.hist.start_lt k o hc.op; have := hc.calls; omega)

theorem lt_calls {i : Nat} (hi : i < m) : i < e.calls := by
  have := hc.calls
  omega

theorem mem_done {k' c : Nat} {o' : ByteOp} (hk' : h k' = some o') (hc' : o'.status = .complete c) :
    (⟨o'.isWrite, o'.data, o'.start, some c⟩ : Op (BitVec 8)) ∈ ops (h.set k (o.done d m)) := by
  have hne : k' ≠ k := by
    rintro rfl
    rw [hc.op] at hk'
    cases hk'
    rw [hc.pending] at hc'
    cases hc'
  exact mem_ops_complete ((h.set_ne _ hne).trans hk') hc'

theorem past (hw : IsWrite e h w) (hle : w.complete ≤ r.start) :
    ∃ o' c, h w.serial = some o' ∧ o'.isWrite = true ∧ o'.status = .complete c ∧
      w.start = e.clock o'.start ∧ c < o.start := by
  obtain ⟨o', ho', hwrite, -, hs, hp | ⟨c, hcomplete, heq⟩⟩ := hw
  · have := hc.start_lt
    omega
  · refine ⟨o', c, ho', hwrite, hcomplete, hs, ?_⟩
    rcases hc.readsApart _ o' c ho' hwrite hcomplete with hlt | hlt
    · exact hlt
    · have := hc.start_eq
      omega

theorem observed (hx : IsObservation e h x) (hlt : x.complete < r.start) (hne : x ≠ initial) :
    ∃ o' c, h x.serial = some o' ∧ o'.isWrite = false ∧ o'.status = .complete c ∧ x.data = o'.data ∧
      x.start = e.clock o'.start ∧ x.complete = e.clock c ∧ c < o.start := by
  rcases hx with hi | ⟨o', c, ho', hread, hcomplete, hdata, hs, heq⟩
  · exact absurd hi hne
  · refine ⟨o', c, ho', hread, hcomplete, hdata, hs, heq, ?_⟩
    refine hc.env.lt_of_clock (hc.lt_calls (hc.hist.complete_lt _ _ _ ho' hcomplete).2) ?_
    rw [← heq, ← hc.start_eq]
    exact hlt

theorem complete_zero (hx : IsObservation e h x) : x.complete = 0 ↔ x = initial := by
  constructor
  · intro h0
    rcases hx with hi | ⟨o', c, ho', -, hcomplete, -, -, heq⟩
    · exact hi
    · have := hc.env.pos c (hc.lt_calls (hc.hist.complete_lt _ _ _ ho' hcomplete).2)
      omega
  · rintro rfl
    rfl

end

end Checks

/-- A scan of the clusters of a tracker, with the last observation `x`, that found no match. -/
structure Scanned (e : Env) (h : History) (t : ByteTracker) (start : Nat) (x : Transaction)
    (d : BitVec 8) (s : ByteTracker.Scan) (seen rest : List WriteCluster) : Prop where
  observation : IsObservation e h x
  before : x.complete < start
  split : t.writeClusters.reverse = seen ++ rest
  scan : ScanOf x start d (seen.flatMap (·.writes))
    { lastExpectedData := [], wcOverlap := true, lastObsValid := x.complete ≠ tickInitial } s
  ended : rest = [] ∨ s.wcOverlap = false
  found : s.found = false

namespace Scanned

variable {s : ByteTracker.Scan} {seen rest : List WriteCluster}

section

variable (hc : Checks e h t m k o r) (hs : Scanned e h t r.start x d s seen rest)
include hc hs

theorem isWrite {c : WriteCluster} (hseen : c ∈ seen ++ rest) (hw : w ∈ c.writes) :
    IsWrite e h w := by
  rw [← hs.split, mem_reverse] at hseen
  exact hc.tracker.clusters.isWrite c hseen w hw

/-- If the scan stopped, it went through a write complete before the read. -/
theorem exists_past (hover : s.wcOverlap = false) :
    ∃ c ∈ seen, ∃ w ∈ c.writes, ∃ o' c', h w.serial = some o' ∧ o'.isWrite = true ∧
      o'.status = .complete c' ∧ c' < o.start := by
  have hnot := (not_congr hs.scan.overlap).1 (by simp [hover])
  simp only [true_and] at hnot
  push Not at hnot
  obtain ⟨w, hw, -, hle⟩ := hnot
  obtain ⟨c, hcseen, hwc⟩ := mem_flatMap.1 hw
  obtain ⟨o', c', ho', hwrite, hcomplete, -, hlt⟩ :=
    hc.past (hs.isWrite hc (mem_append_left _ hcseen) hwc) hle
  exact ⟨c, hcseen, w, hwc, o', c', ho', hwrite, hcomplete, hlt⟩

theorem exists_stale (hx : x ≠ initial) (hvalid : s.lastObsValid = false) :
    ∃ w ∈ seen.flatMap (·.writes), x.start ≤ w.complete ∧ w.complete ≤ r.start ∧
      x.complete < w.start := by
  have hne : x.complete ≠ tickInitial := fun h0 => hx ((hc.complete_zero hs.observation).1 h0)
  have hnot := (not_congr hs.scan.valid).1 (by simp [hvalid])
  simp only [hne, ne_eq, not_false_eq_true, decide_true, true_and] at hnot
  push Not at hnot
  exact hnot

/-- If the last observation is not valid any more, a write between it and the read was seen. -/
theorem exists_between (hx : x ≠ initial) (hvalid : s.lastObsValid = false) :
    ∃ k' o' c', h k' = some o' ∧ o'.isWrite = true ∧ o'.status = .complete c' ∧ c' < o.start ∧
      x.complete < e.clock o'.start := by
  obtain ⟨w, hw, -, hle, hlt⟩ := hs.exists_stale hc hx hvalid
  obtain ⟨c, hcseen, hwc⟩ := mem_flatMap.1 hw
  obtain ⟨o', c', ho', hwrite, hcomplete, hstart, hlt'⟩ :=
    hc.past (hs.isWrite hc (mem_append_left _ hcseen) hwc) hle
  exact ⟨w.serial, o', c', ho', hwrite, hcomplete, hlt', hstart ▸ hlt⟩

end

def asOp (o : ByteOp) (d : BitVec 8) (m : Nat) : Op (BitVec 8) := ⟨false, d, o.start, some m⟩

section
variable (hc : Checks e h t m k o r)
include hc

section
variable (hs : Scanned e h t r.start x d s seen rest)
include hs

theorem explained_init (hi : FromInit (ops (h.set k (o.done d m))) (asOp o d m)) :
    s.lastObsValid = true ∧ x.data = d ∨ s.lastObsValid = false ∧ s.wcOverlap = true := by
  have hover : s.wcOverlap = true := by
    by_contra hfalse
    obtain ⟨c, -, w, -, o', c', ho', hwrite, hcomplete, hlt⟩ := hs.exists_past hc (by simpa using hfalse)
    exact hi.first _ (hc.mem_done ho' hcomplete) hwrite ⟨c', rfl, hlt⟩
  cases hvalid : s.lastObsValid with
  | false => exact .inr ⟨rfl, hover⟩
  | true =>
    left
    have hne := (hs.scan.valid.1 hvalid).1
    have hx : x ≠ initial := by
      rintro rfl
      simp [initial] at hne
    obtain ⟨o', c', ho', hread, hcomplete, hdata, -, -, hlt⟩ := hc.observed hs.observation hs.before hx
    refine ⟨rfl, ?_⟩
    rw [hdata]
    exact hi.same _ (hc.mem_done ho' hcomplete) hread ⟨c', rfl, hlt⟩

theorem explained_write {w : Op (BitVec 8)}
    (hw : FromWrite (ops (h.set k (o.done d m))) (asOp o d m) w) :
    s.lastObsValid = true ∧ x.data = d := by
  obtain ⟨kw, ow, hkw, hto⟩ := hw.mem
  have hwrite : ow.isWrite = true := (toOp_spec hto).1.symm.trans hw.isWrite
  have hkw : h kw = some ow := by
    rcases History.set_cases hkw with ⟨-, rfl⟩ | ⟨-, hkw⟩
    · simp [ByteOp.done, hc.read] at hwrite
    · exact hkw
  have hdata : ow.data = d := (toOp_spec hto).2.1.symm.trans hw.value
  have hab : ow.status ≠ .aborted := by
    intro hab
    simp [ByteOp.toOp, hab] at hto
  -- a write complete before the read does not come after `w`
  have hlast : ∀ k' o' c', CallsBefore h kw k' → h k' = some o' → o'.isWrite = true →
      o'.status = .complete c' → ¬ c' < o.start := by
    rintro k' o' c' ⟨o₁, cw, o₂, h₁, hcw, h₂, hlt⟩ hk' hwrite' hc' hlt'
    rw [hkw] at h₁
    cases h₁
    rw [hk'] at h₂
    cases h₂
    simp only [ByteOp.toOp, hcw, Option.some.injEq] at hto
    exact hw.last _ (hc.mem_done hk' hc') hwrite' ⟨c', rfl, hlt'⟩ ⟨cw, by rw [← hto], hlt⟩
  rcases hc.tracker.clusters.all kw ow hkw hwrite hab with ⟨a, ha, wt, hwt, hserial⟩ | hov
  · have hsplit : t.writeClusters = rest.reverse ++ seen.reverse := by
      rw [← reverse_append, ← hs.split, reverse_reverse]
    have hmem : a ∈ seen ++ rest := by rwa [← hs.split, mem_reverse]
    rcases mem_append.1 hmem with hseen | hrest
    · obtain ⟨ow', how', -, hwdata, -, hstatus⟩ := hs.isWrite hc hmem hwt
      rw [hserial, hkw] at how'
      cases how'
      have hskip : wt.complete < x.start :=
        (hs.scan.other wt (mem_flatMap.2 ⟨a, hseen, hwt⟩)).resolve_right
          (fun hne => hne (hwdata.trans hdata))
      have hx : x ≠ initial := by
        rintro rfl
        simp [initial, tickInitial] at hskip
      obtain ⟨o', c', ho', hread, hcomplete, hxdata, hxstart, hxcomplete, hlt⟩ :=
        hc.observed hs.observation hs.before hx
      have hstart := hc.lt_calls (hc.hist.start_lt _ _ ho')
      obtain ⟨cw, hcw, hwc⟩ : ∃ c, ow.status = .complete c ∧ wt.complete = e.clock c := by
        rcases hstatus with ⟨-, hf⟩ | hcw
        · have := hc.env.lt _ hstart
          omega
        · exact hcw
      have hwx : cw < o'.start :=
        hc.env.lt_of_clock (hc.lt_calls (hc.hist.complete_lt _ _ _ hkw hcw).2) (by omega)
      simp only [ByteOp.toOp, hcw, Option.some.injEq] at hto
      have hprec : Precedes w ⟨o'.isWrite, o'.data, o'.start, some c'⟩ := ⟨cw, by rw [← hto], hwx⟩
      have hin := hc.mem_done (d := d) ho' hcomplete
      refine ⟨?_, hxdata.trans (hw.same _ hin hread hprec ⟨c', rfl, hlt⟩)⟩
      by_contra hvalid
      obtain ⟨k₂, o₂, c₂, h₂, hwrite₂, hc₂, hlt₂, hxlt⟩ := hs.exists_between hc hx (by simpa using hvalid)
      refine hw.between _ hin hprec ⟨c', rfl, hlt⟩ _ (hc.mem_done h₂ hc₂) hwrite₂ ⟨c', rfl, ?_⟩
        ⟨c₂, rfl, hlt₂⟩
      exact hc.env.lt_of_clock (hc.lt_calls (hc.hist.complete_lt _ _ _ ho' hcomplete).2)
        (hxcomplete ▸ hxlt)
    · -- the scan stopped at a later cluster
      have hover := hs.ended.resolve_left (ne_nil_of_mem hrest)
      obtain ⟨c, hcseen, w₂, hw₂, o₂, c₂, h₂, hwrite₂, hc₂, hlt₂⟩ := hs.exists_past hc hover
      have hord := (pairwise_append.1 (hsplit ▸ hc.tracker.clusters.ordered)).2.2 a
        (mem_reverse.2 hrest) c (mem_reverse.2 hcseen)
      exact absurd hlt₂ (hlast _ o₂ c₂ (hserial ▸ hord.2 wt hwt w₂ hw₂) h₂ hwrite₂ hc₂)
  · obtain ⟨k', o', c', hb, hk', hwrite', hc', hreads⟩ := hov
    exact absurd (hreads k o hc.op hc.read hc.pending) (hlast k' o' c' hb hk' hwrite' hc')

/-- In a linearizable history the last observation or the initial value explains the data. -/
theorem explained (hl : Linearizable (ops (h.set k (o.done d m)))) :
    s.lastObsValid = true ∧ x.data = d ∨ s.lastObsValid = false ∧ s.wcOverlap = true := by
  obtain ⟨init, order, hl⟩ := hl
  have hforward : Forward (ops (h.set k (o.done d m))) :=
    (hc.hist.finish (o.done d m) hc.op rfl (.inl rfl)).forward
  have hmem : asOp o d m ∈ ops (h.set k (o.done d m)) := by
    have := mem_ops_complete (h.set_self k (o.done d m)) rfl
    simpa [asOp, ByteOp.done, hc.read] using this
  rcases hl.read hforward (hl.complete _ hmem (by simp [asOp])) rfl with hi | ⟨w, hw⟩
  · exact hs.explained_init hc hi
  · exact .inl (hs.explained_write hc hw)

theorem overlaps (hvalid : s.lastObsValid = false) (hover : s.wcOverlap = true) :
    overlapsAll t.writeClusters r.start e.now = true := by
  -- there is no observation, so no write was skipped
  have hx : x = initial := by
    by_contra hx
    obtain ⟨w, hw, hstart, hle, -⟩ := hs.exists_stale hc hx hvalid
    exact ((hs.scan.overlap.1 hover).2 w hw).elim (not_lt.2 hstart) (not_lt.2 hle)
  have hrest : rest = [] := hs.ended.resolve_right (by simp [hover])
  have hall : ∀ c ∈ t.writeClusters, ∀ w ∈ c.writes, r.start < w.complete := by
    intro c hcm w hw
    have hseen : c ∈ seen := by
      have hrev := mem_reverse.2 hcm
      rwa [hs.split, hrest, append_nil] at hrev
    have hor := (hs.scan.overlap.1 hover).2 w (mem_flatMap.2 ⟨c, hseen, hw⟩)
    rw [hx] at hor
    simpa [initial, tickInitial] using hor
  unfold overlapsAll
  split
  · rename_i first last hfirst hlast
    have hfm := mem_of_head? hfirst
    have hlm := mem_of_getLast? hlast
    obtain ⟨k', o', ho', hwrite, hstart⟩ := hc.tracker.started first hfm
    have hne := hc.writesApart k' o' ho' hwrite
    have hle := hc.env.last _ (hc.lt_calls (hc.hist.start_lt k' o' ho'))
    have hlt : r.start < last.complete := by
      by_cases hf : last.complete = tickFuture
      · rw [hf]
        exact hc.start_lt
      · obtain ⟨hne', hbound⟩ := (hc.tracker.clusters.cluster last hlm).complete_iff hf
        obtain ⟨w, hw⟩ := exists_mem_of_ne_nil _ hne'
        exact lt_of_lt_of_le (hall last hlm w hw) (hbound w hw).2
    simp only [decide_eq_true_eq]
    omega
  · rfl

/-- **The end of the check.** No assertion fails, and what is linearizable is accepted. -/
theorem checkOthers :
    ∃ result expected, t.checkOthers x r.start e.now d s = .ok (result, expected) ∧
      (Linearizable (ops (h.set k (o.done d m))) → result = true) := by
  unfold ByteTracker.checkOthers
  simp only [hs.found, Bool.false_eq_true, if_false]
  cases hvalid : s.lastObsValid with
  | true =>
    simp only [if_true]
    rw [if_neg (not_lt.2 (le_of_lt hs.before))]
    split
    · exact ⟨_, _, rfl, fun _ => rfl⟩
    · rename_i hne
      refine ⟨_, _, rfl, fun hl => ?_⟩
      rcases hs.explained hc hl with ⟨-, hd⟩ | ⟨hv, -⟩
      · exact absurd hd hne
      · simp [hvalid] at hv
  | false =>
    simp only [Bool.false_eq_true, if_false]
    split
    · rename_i hover
      rw [hs.overlaps hc hvalid hover.2]
      exact ⟨_, _, rfl, fun _ => rfl⟩
    · rename_i hover
      split
      · rename_i hnil
        have h0 : x.complete = tickInitial := by
          refine (hc.complete_zero hs.observation).2 ?_
          by_contra hx
          obtain ⟨w, hw, hstart, -⟩ := hs.exists_stale hc hx hvalid
          exact not_lt.2 hstart ((hs.scan.none.1 hnil).2 w hw)
        rw [if_neg (by simpa using h0)]
        exact ⟨_, _, rfl, fun _ => rfl⟩
      · rename_i hexp
        refine ⟨_, _, rfl, fun hl => ?_⟩
        rcases hs.explained hc hl with ⟨hv, -⟩ | ⟨-, hov⟩
        · simp [hvalid] at hv
        · -- then there are no clusters, and nothing was expected
          exfalso
          have hnil : t.writeClusters = [] := by
            by_contra hne
            exact hover ⟨hne, hov⟩
          have hseen : seen = [] := by
            have hsp := hs.split
            rw [hnil] at hsp
            exact (append_eq_nil_iff.1 hsp.symm).1
          exact hexp (hs.scan.none.2 ⟨rfl, by simp [hseen]⟩)

end

end

end Scanned

/-! ## Completing a read -/

namespace Checks

/-- **The check.** -/
theorem inExpectedData (hc : Checks e h t m k o r) (rs : List Transaction) :
    ∃ result expected,
      { t with outstandingReads := rs }.inExpectedData r.start e.now d =
        .ok (result, { t with outstandingReads := rs, lastExpectedData := expected }) ∧
      (Linearizable (ops (h.set k (o.done d m))) → result = true) := by
  obtain ⟨y, ys, hy, hyreads, -⟩ := hc.tracker.first
  obtain ⟨l₁, x, l₂, hl, hx, hrun⟩ := lastCompleted_spec (·.complete) (l := t.readObservations)
    (by simp [hy]) r.start
  have hbefore : x.complete < r.start := by
    rcases hx with rfl | hlt
    · rw [hy] at hl
      cases hl
      exact hyreads r hc.mem
    · exact hlt
  have hobs : IsObservation e h x := hc.tracker.observations x (by simp [hl])
  have hget : t.readObservations.getD l₁.length initial = x := by simp [hl]
  simp only [ByteTracker.inExpectedData, hrun, ok_bind, hget]
  generalize hs : scanClusters x r.start d t.writeClusters.reverse
    { lastExpectedData := [], wcOverlap := true,
      lastObsValid := decide (x.complete ≠ tickInitial) } = s
  have hothers : ∃ result expected, t.checkOthers x r.start e.now d s = .ok (result, expected) ∧
      (Linearizable (ops (h.set k (o.done d m))) → result = true) := by
    cases hfound : s.found with
    | true => exact ⟨true, s.lastExpectedData, by simp [ByteTracker.checkOthers, hfound], fun _ => rfl⟩
    | false =>
      obtain ⟨seen, rest, hsplit, hscan, hended⟩ := scanClusters_spec t.writeClusters.reverse _ rfl
        (hs ▸ hfound)
      rw [hs] at hscan hended
      exact Scanned.checkOthers hc ⟨hobs, hbefore, hsplit, hscan, hended, hfound⟩
  obtain ⟨result, expected, hres, hlin⟩ := hothers
  refine ⟨result, expected, ?_, hlin⟩
  have hres' : { t with outstandingReads := rs }.checkOthers x r.start e.now d s = .ok (result, expected) := hres
  rw [hres']
  rfl

theorem observe (hc : Checks e h t m k o r) (expected : List (BitVec 8)) :
    TrackerOk e (h.set k (o.done d m))
      { t with
        outstandingReads := t.outstandingReads.filter (·.serial ≠ k)
        readObservations := t.readObservations ++ [⟨k, r.start, e.now, d⟩]
        lastExpectedData := expected } := by
  have hsub : ∀ r' ∈ t.outstandingReads.filter (·.serial ≠ k), r' ∈ t.outstandingReads ∧ r'.serial ≠ k := by
    simp
  have hold : Becomes h k (o.done d m) := becomes_of_pending hc.op hc.pending rfl rfl
  refine ⟨?_, ?_, fun r' hr' => (hc.tracker.reads r' (hsub r' hr').1).set (hsub r' hr').2, ?_,
    hc.tracker.sorted.sublist filter_sublist, ?_, ?_⟩
  · exact hc.tracker.clusters.setRead hc.hist hold hc.read fun hp => by cases hp
  · exact hc.tracker.started.set hold
  · intro k' o' hk' hread hp
    rcases History.set_cases hk' with ⟨-, rfl⟩ | ⟨hne, hk'⟩
    · cases hp
    · obtain ⟨r', hr', heq⟩ := hc.tracker.readsAll k' o' hk' hread hp
      exact ⟨r', mem_filter.2 ⟨hr', by simpa [heq] using hne⟩, heq⟩
  · refine forall_mem_append.2 ⟨fun r' hr' => ?_, forall_mem_singleton.2 ?_⟩
    · exact (hc.tracker.observations r' hr').set hold
    · exact .inr ⟨o.done d m, m, h.set_self k _, hc.read, rfl, rfl, hc.start_eq, hc.now.symm⟩
  · obtain ⟨y, ys, hy, hyreads, hyor⟩ := hc.tracker.first
    exact ⟨y, ys ++ [⟨k, r.start, e.now, d⟩], by simp [hy], fun r' hr' => hyreads r' (hsub r' hr').1, hyor⟩

theorem completeRead (hc : Checks e h t m k o r)
    (hfind : t.outstandingReads.find? (fun r => decide (r.serial = k)) = some r) :
    ∃ result t', t.completeRead e.now k e.now d = .ok (result, t') ∧
      TrackerOk e (h.set k (o.done d m)) t' ∧
      (Linearizable (ops (h.set k (o.done d m))) → result = true) := by
  obtain ⟨result, expected, hrun, hlin⟩ := hc.inExpectedData (t.outstandingReads.filter (·.serial ≠ k))
  have hlt : m < e.calls := by have := hc.calls; omega
  have hok' : HistoryOk e.calls (h.set k (o.done d m)) :=
    hc.calls ▸ hc.hist.finish (o.done d m) hc.op rfl (.inl rfl)
  obtain ⟨t', hprune, ht'⟩ := (hc.observe expected).prune hc.env hok' (hc.now ▸ hc.env.lt m hlt)
  refine ⟨result, t', ?_, ht', hlin⟩
  simp only [ByteTracker.completeRead, hfind, hrun, ok_bind]
  rw [hprune]
  rfl

end Checks

end Gem5Cxl.L3.Checker
