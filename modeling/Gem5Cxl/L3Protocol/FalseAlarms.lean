import Gem5Cxl.L3Protocol.CheckerReads

/-!
# The memory checker raises no false alarm

Runs of the calls on the checker at ticks that do not decrease; a transaction is completed
or aborted at most once, with the address and size it was started with. Beside the checker
the state has the history of each byte.

**Results.**
* `no_false_alarm`: in the runs that keep to `Meets` no assertion fails, and if the history
  of every byte is linearizable, no `completeRead` has returned false.
* `false_alarm`: two runs that do not keep to it, with linearizable histories. In one a write
  is complete at the tick at which a read started, but after the call that started it:
  the check takes the write to be complete before the read and rejects the older value. In
  the other a read is complete at the tick at which a write started: the check takes the two
  to overlap, and then fails its own assertion that they do.

`Meets` excludes just these, and the tick `MaxTick`, which stands for the completion of what
is not complete.
-/
namespace Gem5Cxl.L3.Checker

open Core Core.Register L1 L2.Checker MemChecker Function List Machine

/-! ## Calls -/

structure Transfer where
  isWrite : Bool
  addr : Nat
  size : Nat
deriving DecidableEq, Repr

inductive Call
  | startRead (addr size : Nat)
  | completeRead (serial addr size : Nat) (data : Nat → BitVec 8)
  | startWrite (addr size : Nat) (data : Nat → BitVec 8)
  | completeWrite (serial addr size : Nat)
  | abortWrite (serial addr size : Nat)

/-- A call and its tick, which is `curTick()`. -/
structure Label where
  tick : Nat
  call : Call

/-- `outstanding` are the transactions started and not ended; `alarm` is set once a
`completeRead` has returned false. -/
structure State where
  checker : MemChecker
  env : Env
  outstanding : Nat → Option Transfer
  history : Nat → History
  alarm : Bool

/-- The histories after a call on `size` bytes from `addr`. -/
def onBytes (hist : Nat → History) (addr size : Nat) (g : Nat → History → History) (b : Nat) :
    History :=
  if addr ≤ b ∧ b < addr + size then g (b - addr) (hist b) else hist b

def History.modify (h : History) (k : Nat) (f : ByteOp → ByteOp) : History :=
  match h k with
  | some o => h.set k (f o)
  | none => h

def step (s : State) (l : Label) : Except Fault State :=
  let call := s.env.calls
  let env := s.env.call l.tick
  match l.call with
  | .startRead addr size => do
    let (k, c) ← s.checker.startRead l.tick addr size
    return { s with
      checker := c
      env
      outstanding := Function.update s.outstanding k (some ⟨false, addr, size⟩)
      history := onBytes s.history addr size fun _ h =>
        h.set k ⟨false, dataInitial, call, .pending⟩ }
  | .startWrite addr size data => do
    let (k, c) ← s.checker.startWrite l.tick addr size data
    return { s with
      checker := c
      env
      outstanding := Function.update s.outstanding k (some ⟨true, addr, size⟩)
      history := onBytes s.history addr size fun i h => h.set k ⟨true, data i, call, .pending⟩ }
  | .completeRead k addr size data => do
    let (result, c) ← s.checker.completeRead l.tick k l.tick addr size data
    return { s with
      checker := c
      env
      outstanding := Function.update s.outstanding k none
      history := onBytes s.history addr size fun i h => h.modify k (·.done (data i) call)
      alarm := s.alarm || !result }
  | .completeWrite k addr size => do
    let c ← s.checker.completeWrite l.tick k l.tick addr size
    return { s with
      checker := c
      env
      outstanding := Function.update s.outstanding k none
      history := onBytes s.history addr size fun _ h =>
        h.modify k fun o => { o with status := .complete call } }
  | .abortWrite k addr size => do
    let c ← s.checker.abortWrite k addr size
    return { s with
      checker := c
      env
      outstanding := Function.update s.outstanding k none
      history := onBytes s.history addr size fun _ h => h.modify k fun o =>
        { o with status := .aborted } }

/-- A transaction is ended as it was started, and once. -/
def Matches (s : State) : Call → Prop
  | .startRead _ _ | .startWrite _ _ _ => True
  | .completeRead k addr size _ => s.outstanding k = some ⟨false, addr, size⟩
  | .completeWrite k addr size | .abortWrite k addr size =>
    s.outstanding k = some ⟨true, addr, size⟩

/-- Ticks are positive, do not decrease and have 64 bits. -/
def enabled (s : State) (l : Label) : Prop :=
  0 < l.tick ∧ s.env.now ≤ l.tick ∧ l.tick ≤ tickFuture ∧ Matches s l.call

def machine : Machine State Label Fault where
  init s := s = ⟨.new, ⟨0, fun _ => 0, 0⟩, fun _ => none, fun _ _ => none, false⟩
  enabled := enabled
  step := step

/-- No operation on the byte of the kind, outstanding if it is a read, started at the tick. -/
def NoneStarted (s : State) (b : Nat) (isWrite : Bool) (tick : Nat) : Prop :=
  ∀ k < s.checker.nextSerial, ∀ o ∈ s.history b k, o.isWrite = isWrite →
    (isWrite = true ∨ o.status = .pending) → s.env.clock o.start ≠ tick

instance (s : State) (b : Nat) (isWrite : Bool) (tick : Nat) :
    Decidable (NoneStarted s b isWrite tick) :=
  inferInstanceAs (Decidable (∀ k < s.checker.nextSerial, ∀ o ∈ s.history b k, _ → _ → _))

/-- A write is not completed at the tick at which an outstanding read of one of its bytes started,
and a read not at the tick at which a write of one of its bytes started. -/
def Meets (s : State) (l : Label) : Prop :=
  l.tick < tickFuture ∧
    match l.call with
    | .completeRead _ addr size _ => ∀ i < size, NoneStarted s (addr + i) true l.tick
    | .completeWrite _ addr size => ∀ i < size, NoneStarted s (addr + i) false l.tick
    | _ => True

/-! ## Loops -/

theorem forBytes_spec {σ : Type} {body : Nat → σ → Except Fault σ} {J : Nat → σ → Prop} {size : Nat}
    (hstep : ∀ i s, i < size → J i s → ∃ s', body i s = .ok s' ∧ J (i + 1) s') {s : σ}
    (h0 : J 0 s) :
    ∃ s', forBytes body size 0 s = .ok s' ∧ J size s' := by
  -- the rounds that are left, from index `i`
  have hrun : ∀ left i s, i + left = size → J i s →
      ∃ s', forBytes body left i s = .ok s' ∧ J size s' := by
    intro left
    induction left with
    | zero =>
      rintro i s rfl hJ
      exact ⟨s, rfl, hJ⟩
    | succ left ih =>
      intro i s hi hJ
      obtain ⟨s₁, hbody, hJ₁⟩ := hstep i s (by omega) hJ
      obtain ⟨s₂, hrest, hJ₂⟩ := ih (i + 1) s₁ (by omega) hJ₁
      exact ⟨s₂, by simp only [forBytes, hbody, ok_bind, hrest], hJ₂⟩
  exact hrun size 0 s (zero_add size) h0

/-- The trackers of the first `i` bytes have changed, and no others. -/
structure Changed (c : MemChecker) (addr : Nat) (P : Nat → ByteTracker → Prop) (i : Nat)
    (c' : MemChecker) :
    Prop where
  serial : c'.nextSerial = c.nextSerial
  inside : ∀ j < i, P j (c'.byteTrackers (addr + j))
  outside : ∀ b, b < addr ∨ addr + i ≤ b → c'.byteTrackers b = c.byteTrackers b

theorem Changed.zero (c : MemChecker) (addr : Nat) (P : Nat → ByteTracker → Prop) :
    Changed c addr P 0 c :=
  ⟨rfl, fun _ h => absurd h (Nat.not_lt_zero _), fun _ _ => rfl⟩

variable {P : Nat → ByteTracker → Prop} {o : ByteOp} {l : List (Nat × ByteOp)} {c : MemChecker}
  {b i k n : Nat}
  {f : Nat → ByteTracker → Except Fault ByteTracker} {s : State} {ok : State → Label → Bool}

theorem Changed.next {c' : MemChecker} {addr : Nat} {t : ByteTracker}
    (hc : Changed c addr P i c') (ht : P i t) :
    Changed c addr P (i + 1) (c'.setTracker (addr + i) t) := by
  refine ⟨hc.serial, fun j hj => ?_, fun b hb => ?_⟩
  · by_cases heq : j = i
    · subst heq
      simpa [setTracker] using ht
    · have hne : addr + j ≠ addr + i := by omega
      simp only [setTracker, update_of_ne hne]
      exact hc.inside j (by omega)
  · have hne : b ≠ addr + i := by omega
    simp only [setTracker, update_of_ne hne]
    exact hc.outside b (by omega)

theorem forTrackers_spec (c : MemChecker) (addr size : Nat)
    (hf : ∀ i < size, ∃ t', f i (c.byteTrackers (addr + i)) = .ok t' ∧ P i t') :
    ∃ c', c.forTrackers addr size f = .ok c' ∧ Changed c addr P size c' := by
  refine forBytes_spec (fun i c' hi hJ => ?_) (.zero c addr P)
  obtain ⟨t', ht', hP⟩ := hf i hi
  have hsame := hJ.outside (addr + i) (.inr le_rfl)
  refine ⟨c'.setTracker (addr + i) t', ?_, hJ.next hP⟩
  rw [hsame, ht']
  rfl

theorem completeRead_spec {tick addr size : Nat} {data : Nat → BitVec 8} {Q : Nat → Prop}
    (hf : ∀ i < size, ∃ result t', (c.byteTrackers (addr + i)).completeRead tick k tick (data i) =
      .ok (result, t') ∧ P i t' ∧ (Q i → result = true)) :
    ∃ result c', c.completeRead tick k tick addr size data = .ok (result, c') ∧
      Changed c addr P size c' ∧ (result = false → ∃ i < size, ¬ Q i) := by
  have hloop : ∃ s', forBytes (completeReadByte tick k tick addr data) size 0 (c, true) =
      .ok s' ∧ (Changed c addr P size s'.1 ∧ (s'.2 = false → ∃ i < size, ¬ Q i)) := by
    refine forBytes_spec (J := fun i (s : MemChecker × Bool) => Changed c addr P i s.1 ∧
      (s.2 = false → ∃ j < i, ¬ Q j))
      (fun i s hi hJ => ?_) ⟨.zero c addr P, fun h => by cases h⟩
    obtain ⟨result, t', ht', hP, hQ⟩ := hf i hi
    have hsame := hJ.1.outside (addr + i) (.inr le_rfl)
    have hold : s.2 = false → ∃ j < i + 1, ¬ Q j := by
      intro h2
      obtain ⟨j, hj, hn⟩ := hJ.2 h2
      exact ⟨j, Nat.lt_succ_of_lt hj, hn⟩
    simp only [completeReadByte, hsame, ht', ok_bind]
    cases result with
    | true => exact ⟨_, rfl, hJ.1.next hP, hold⟩
    | false =>
      have hnext := hJ.1.next hP
      exact ⟨_, rfl, { hnext with },
        fun _ => ⟨i, Nat.lt_succ_self i, by simpa using hQ⟩⟩
  obtain ⟨s', hrun, hJ⟩ := hloop
  refine ⟨s'.2, s'.1, ?_, hJ⟩
  simp only [MemChecker.completeRead, hrun]
  rfl

/-! ## One byte -/

/-- A write complete when a read is outstanding was complete before it, or has a later tick. -/
def ReadsApart (e : Env) (h : History) : Prop :=
  ∀ k o c k' r, h k = some o → o.isWrite = true → o.status = .complete c → h k' = some r →
    r.isWrite = false → r.status = .pending → c < r.start ∨ e.clock r.start < e.clock c

structure ByteOk (e : Env) (h : History) (t : ByteTracker) : Prop where
  history : HistoryOk e.calls h
  tracker : TrackerOk e h t
  apart : ReadsApart e h

section
variable {e : Env} {h : History} {t : ByteTracker} {k tick : Nat} {o : ByteOp}

theorem ByteOk.later (hb : ByteOk e h t) (hnow : e.now ≤ tick) : ByteOk (e.call tick) h t := by
  refine ⟨hb.history.later, hb.tracker.later hb.history hnow, ?_⟩
  intro k o c k' r hk hwrite hc hk' hread hp
  rw [Env.call_clock (hb.history.start_lt _ _ hk'),
    Env.call_clock (hb.history.complete_lt _ _ _ hk hc).2]
  exact hb.apart k o c k' r hk hwrite hc hk' hread hp

theorem ReadsApart.set (hok : HistoryOk e.calls h) (hap : ReadsApart (e.call tick) h)
    (hwrite : o.isWrite = true → ∀ c, o.status ≠ .complete c)
    (hread : o.isWrite = false → o.status = .pending → o.start = e.calls) :
    ReadsApart (e.call tick) (h.set k o) := by
  intro k₁ o₁ c k₂ r h₁ hw₁ hc h₂ hr hp
  rcases History.set_cases h₁ with ⟨-, rfl⟩ | ⟨-, h₁'⟩
  · exact absurd hc (hwrite hw₁ c)
  · rcases History.set_cases h₂ with ⟨-, rfl⟩ | ⟨-, h₂'⟩
    · exact .inl (hread hr hp ▸ (hok.complete_lt _ _ _ h₁' hc).2)
    · exact hap _ _ _ _ _ h₁' hw₁ hc h₂' hr hp

variable (he : EnvOk (e.call tick)) (hnow : e.now ≤ tick) (hb : ByteOk e h t)
include he hnow hb

theorem ByteOk.startRead (hk : ∀ k' o', h k' = some o' → k' < k) :
    ByteOk (e.call tick) (h.set k ⟨false, dataInitial, e.calls, .pending⟩)
      (t.startRead k tick) := by
  have hl := hb.later hnow
  refine ⟨hb.history.start rfl rfl, ?_, hl.apart.set hb.history (by simp) fun _ _ => rfl⟩
  have ht := hl.tracker.startRead he hb.history rfl (Env.call_clock_new e tick) hk
    (o := ⟨false, dataInitial, e.calls, .pending⟩) rfl
  rwa [Env.call_clock_new] at ht

theorem ByteOk.startWrite (hk : h k = none) (data : BitVec 8) :
    ∃ t', t.startWrite k tick data = .ok t' ∧
      ByteOk (e.call tick) (h.set k ⟨true, data, e.calls, .pending⟩) t' := by
  have hl := hb.later hnow
  obtain ⟨t', hrun, ht'⟩ := hl.tracker.startWrite he hb.history (Nat.lt_succ_self _) hk
    (o := ⟨true, data, e.calls, .pending⟩) rfl
  rw [Env.call_clock_new] at hrun
  exact ⟨t', hrun, hb.history.start rfl rfl, ht',
    hl.apart.set hb.history (fun _ c hc => by cases hc) fun hr => by cases hr⟩

theorem ByteOk.completeWrite (hk : h k = some o) (hwrite : o.isWrite = true)
    (hp : o.status = .pending)
    (hmeets : ∀ k' r, h k' = some r → r.isWrite = false → r.status = .pending →
      e.clock r.start ≠ tick) :
    ∃ t', t.completeWrite tick k tick = .ok t' ∧
      ByteOk (e.call tick) (h.set k { o with status := .complete e.calls }) t' := by
  have hl := hb.later hnow
  obtain ⟨t', hrun, ht'⟩ :=
    hl.tracker.completeWrite he hb.history rfl (Env.call_clock_new e tick) hk hwrite hp
  rw [Env.call_clock_new] at hrun
  refine ⟨t', hrun, hb.history.finish _ hk rfl (.inl rfl), ht', ?_⟩
  intro k₁ o₁ c k₂ r h₁ hw₁ hc h₂ hr hp₂
  rcases History.set_cases h₂ with ⟨-, rfl⟩ | ⟨-, h₂⟩
  · cases hp₂
  · rcases History.set_cases h₁ with ⟨-, rfl⟩ | ⟨-, h₁⟩
    · -- the write that is complete now
      cases hc
      right
      have hlt := hb.history.start_lt _ _ h₂
      have hle := he.last r.start (Nat.lt_succ_of_lt hlt)
      rw [Env.call_clock hlt] at hle
      rw [Env.call_clock hlt, Env.call_clock_new]
      exact lt_of_le_of_ne hle (hmeets k₂ r h₂ hr hp₂)
    · exact hl.apart _ _ _ _ _ h₁ hw₁ hc h₂ hr hp₂

omit he in
theorem ByteOk.abortWrite (hk : h k = some o) (hwrite : o.isWrite = true)
    (hp : o.status = .pending) :
    ∃ t', t.abortWrite k = .ok t' ∧ ByteOk (e.call tick)
      (h.set k { o with status := .aborted }) t' := by
  have hl := hb.later hnow
  obtain ⟨t', hrun, ht'⟩ := hl.tracker.abortWrite hb.history hk hwrite hp
  exact ⟨t', hrun, hb.history.finish _ hk rfl (.inr rfl), ht',
    hl.apart.set hb.history (fun _ c hc => by cases hc) fun _ hs => by cases hs⟩

theorem ByteOk.completeRead (hk : h k = some o) (hread : o.isWrite = false)
    (hp : o.status = .pending)
    (hmeets : ∀ k' w, h k' = some w → w.isWrite = true → e.clock w.start ≠ tick) (data : BitVec 8) :
    ∃ result t', t.completeRead tick k tick data = .ok (result, t') ∧
      ByteOk (e.call tick) (h.set k (o.done data e.calls)) t' ∧
      (Linearizable (ops (h.set k (o.done data e.calls))) → result = true) := by
  have hl := hb.later hnow
  obtain ⟨r₀, hr₀, hserial₀⟩ := hb.tracker.readsAll k o hk hread hp
  obtain ⟨r, hfind⟩ := Option.isSome_iff_exists.1
    (find?_isSome.2 ⟨r₀, hr₀, by simpa using hserial₀⟩ :
      (t.outstandingReads.find? fun r => decide (r.serial = k)).isSome)
  have hchecks : Checks (e.call tick) h t e.calls k o r :=
    { env := he
      hist := hb.history
      calls := rfl
      now := Env.call_clock_new e tick
      tracker := hl.tracker
      op := hk
      read := hread
      pending := hp
      mem := mem_of_find?_eq_some hfind
      serial := by simpa using find?_some hfind
      writesApart := by
        intro k' w hk' hw
        rw [Env.call_clock (hb.history.start_lt _ _ hk')]
        exact hmeets k' w hk' hw
      readsApart := fun k' o' c hk' hw hc => hl.apart k' o' c k o hk' hw hc hk hread hp }
  obtain ⟨result, t', hrun, ht', hlin⟩ := hchecks.completeRead hfind
  refine ⟨result, t', hrun,
    ⟨hb.history.finish (o.done data e.calls) hk rfl (.inl rfl), ht', ?_⟩, hlin⟩
  exact hl.apart.set hb.history (fun hw => by simp [ByteOp.done, hread] at hw)
    fun _ hs => by cases hs

end

/-! ## All bytes -/

structure Inv (s : State) : Prop where
  env : EnvOk s.env
  bytes : ∀ b, ByteOk s.env (s.history b) (s.checker.byteTrackers b)
  serials : ∀ b k o, s.history b k = some o → k < s.checker.nextSerial
  outstanding : ∀ k tr, s.outstanding k = some tr → k < s.checker.nextSerial ∧
    ∀ i < tr.size, ∃ o, s.history (tr.addr + i) k = some o ∧ o.isWrite = tr.isWrite ∧
      o.status = .pending
  alarm : s.alarm = true → ∃ b, ¬ Linearizable (ops (s.history b))

section
variable {hist : Nat → History} {addr size : Nat} {g : Nat → History → History}

theorem onBytes_inside (hi : i < size) :
    onBytes hist addr size g (addr + i) = g i (hist (addr + i)) := by
  unfold onBytes
  rw [if_pos (by omega), Nat.add_sub_cancel_left]

theorem onBytes_outside (hb : b < addr ∨ addr + size ≤ b) :
    onBytes hist addr size g b = hist b := by
  unfold onBytes
  rw [if_neg (by omega)]

theorem inside_or_outside (addr size b : Nat) :
    (∃ i < size, b = addr + i) ∨ (b < addr ∨ addr + size ≤ b) := by
  by_cases hb : addr ≤ b ∧ b < addr + size
  · exact .inl ⟨b - addr, by omega, by omega⟩
  · exact .inr (by omega)

theorem onBytes_other (hg : ∀ i h, g i h k = h k) (b : Nat) :
    onBytes hist addr size g b k = hist b k := by
  unfold onBytes
  split
  · exact hg _ _
  · rfl

theorem History.modify_other (h : History) {k' : Nat} (f : ByteOp → ByteOp) (hne : k' ≠ k) :
    h.modify k f k' = h k' := by
  unfold History.modify
  cases h k with
  | some o => exact h.set_ne _ hne
  | none => rfl

theorem History.modify_some {h : History} {f : ByteOp → ByteOp} (hk : h k = some o) :
    h.modify k f = h.set k (f o) := by
  unfold History.modify
  rw [hk]

end

section
variable {s : State} {c' : MemChecker} {addr size k tick : Nat} {g : Nat → History → History}

theorem Inv.bytes_changed (hs : Inv s) (hnow : s.env.now ≤ tick)
    (hc : Changed s.checker addr
      (fun i t => ByteOk (s.env.call tick) (g i (s.history (addr + i))) t) size c')
    (b : Nat) : ByteOk (s.env.call tick) (onBytes s.history addr size g b) (c'.byteTrackers b) := by
  rcases inside_or_outside addr size b with ⟨i, hi, rfl⟩ | hout
  · rw [onBytes_inside hi]
    exact hc.inside i hi
  · rw [onBytes_outside hout, hc.outside b hout]
    exact (hs.bytes b).later hnow

theorem Inv.called (hs : Inv s) (he : EnvOk (s.env.call tick)) (hnow : s.env.now ≤ tick)
    {w : Option Transfer} (alarm : Bool) (hg : ∀ i h k', k' ≠ k → g i h k' = h k')
    (hk : k < n) (hn : s.checker.nextSerial ≤ n)
    (hc : Changed s.checker addr
      (fun i t => ByteOk (s.env.call tick) (g i (s.history (addr + i))) t) size c')
    (hout : ∀ tr ∈ w, tr.addr = addr ∧ tr.size = size ∧
      ∀ i h, ∃ o, g i h k = some o ∧ o.isWrite = tr.isWrite ∧ o.status = .pending)
    (hnext : ∀ i < size, Next s.env.calls (s.history (addr + i)) (g i (s.history (addr + i))))
    (ha : alarm = true → s.alarm = true ∨ ∃ i < size,
      ¬ Linearizable (ops (g i (s.history (addr + i))))) :
    Inv ⟨{ c' with nextSerial := n }, s.env.call tick, update s.outstanding k w,
      onBytes s.history addr size g, alarm⟩ := by
  have hbytes := hs.bytes_changed hnow hc
  refine ⟨he, hbytes, fun b k' o' hk' => ?_, fun k' tr hk' => ?_, fun halarm => ?_⟩
  · by_cases heq : k' = k
    · exact heq ▸ hk
    · simp only [onBytes_other fun i h => hg i h k' heq] at hk'
      exact lt_of_lt_of_le (hs.serials b k' o' hk') hn
  · by_cases heq : k' = k
    · subst heq
      simp only [update_self] at hk'
      obtain ⟨rfl, rfl, ho⟩ := hout tr hk'
      refine ⟨hk, fun i hi => ?_⟩
      simp only [onBytes_inside hi]
      exact ho i _
    · simp only [update_of_ne heq] at hk'
      obtain ⟨hlt, hall⟩ := hs.outstanding k' tr hk'
      refine ⟨lt_of_lt_of_le hlt hn, fun i hi => ?_⟩
      simp only [onBytes_other fun i h => hg i h k' heq]
      exact hall i hi
  · rcases ha halarm with hold | ⟨i, hi, hn⟩
    · -- a call keeps what is not linearizable so
      obtain ⟨b, hb⟩ := hs.alarm hold
      refine ⟨b, fun hl => hb ?_⟩
      rcases inside_or_outside addr size b with ⟨i, hi, rfl⟩ | hout
      · simp only [onBytes_inside hi] at hl
        exact linearizable_before (hs.bytes _).history (hc.inside i hi).history (hnext i hi) hl
      · simpa only [onBytes_outside hout] using hl
    · exact ⟨addr + i, by simpa only [onBytes_inside hi] using hn⟩

end

/-! ## Runs -/

section
variable {s : State} {tick addr size k : Nat} (hs : Inv s) (he : EnvOk (s.env.call tick))
  (hnow : s.env.now ≤ tick)
include hs

theorem Inv.fresh (b : Nat) : s.history b s.checker.nextSerial = none := by
  cases hk : s.history b s.checker.nextSerial with
  | none => rfl
  | some o => exact absurd (hs.serials b _ o hk) (lt_irrefl _)

theorem NoneStarted.all {isWrite : Bool} (hn : NoneStarted s b isWrite tick)
    (hk : s.history b k = some o) (ho : o.isWrite = isWrite)
    (hor : isWrite = true ∨ o.status = .pending) :
    s.env.clock o.start ≠ tick := hn k (hs.serials b k o hk) o hk ho hor

include he hnow

theorem Inv.begun (addr size : Nat) (o : Nat → ByteOp) (isWrite : Bool)
    (hstart : ∀ i, (o i).start = s.env.calls)
    (ho : ∀ i, (o i).isWrite = isWrite ∧ (o i).status = .pending)
    (hf : ∀ i < size, ∃ t', f i (s.checker.byteTrackers (addr + i)) = .ok t' ∧
      ByteOk (s.env.call tick) ((s.history (addr + i)).set s.checker.nextSerial (o i)) t') :
    ∃ c', s.checker.forTrackers addr size f = .ok c' ∧
      Inv { s with
        checker := { c' with nextSerial := c'.nextSerial + 1 }
        env := s.env.call tick
        outstanding := update s.outstanding s.checker.nextSerial (some ⟨isWrite, addr, size⟩)
        history := onBytes s.history addr size fun i h => h.set s.checker.nextSerial (o i) } := by
  obtain ⟨c', hrun, hc⟩ := forTrackers_spec s.checker addr size hf
  have hnext : s.checker.nextSerial < c'.nextSerial + 1 := hc.serial ▸ Nat.lt_succ_self _
  refine ⟨c', hrun,
    hs.called he hnow s.alarm (fun i h k' hne => h.set_ne (o i) hne) hnext hnext.le hc ?_
    (fun i _ => .start (hs.fresh _) (hstart i) (ho i).2) .inl⟩
  rintro tr ⟨⟩
  exact ⟨rfl, rfl, fun i h => ⟨o i, h.set_self _ _, ho i⟩⟩

theorem Inv.startRead : ∃ s', step s ⟨tick, .startRead addr size⟩ = .ok s' ∧ Inv s' := by
  obtain ⟨c', hrun, hi⟩ :=
    hs.begun he hnow addr size (fun _ => ⟨false, dataInitial, s.env.calls, .pending⟩) false
    (fun _ => rfl) (fun _ => ⟨rfl, rfl⟩)
    (f := fun _ t => .ok (t.startRead s.checker.nextSerial tick)) fun i _ =>
      ⟨_, rfl, (hs.bytes (addr + i)).startRead he hnow fun k' o' hk' => hs.serials _ k' o' hk'⟩
  refine ⟨_, ?_, hi⟩
  simp only [step, MemChecker.startRead, hrun]
  rfl

theorem Inv.startWrite (data : Nat → BitVec 8) :
    ∃ s', step s ⟨tick, .startWrite addr size data⟩ = .ok s' ∧ Inv s' := by
  obtain ⟨c', hrun, hi⟩ :=
    hs.begun he hnow addr size (fun i => ⟨true, data i, s.env.calls, .pending⟩) true
    (fun _ => rfl) (fun _ => ⟨rfl, rfl⟩)
    (f := fun i t => t.startWrite s.checker.nextSerial tick (data i))
    fun i _ => (hs.bytes (addr + i)).startWrite he hnow (hs.fresh _) (data i)
  refine ⟨_, ?_, hi⟩
  simp only [step, MemChecker.startWrite, hrun]
  rfl

section

variable (hk : s.outstanding k = some ⟨true, addr, size⟩)
include hk

theorem Inv.endedWrite {u : ByteOp → ByteOp}
    (hu : ∀ o, (u o).isWrite = o.isWrite ∧ (u o).data = o.data ∧ (u o).start = o.start ∧
      ((u o).status = .complete s.env.calls ∨ (u o).status = .aborted))
    {f : ByteTracker → Except Fault ByteTracker}
    (hf : ∀ i < size, ∀ o, s.history (addr + i) k = some o → o.isWrite = true →
      o.status = .pending → ∃ t', f (s.checker.byteTrackers (addr + i)) = .ok t' ∧
        ByteOk (s.env.call tick) ((s.history (addr + i)).set k (u o)) t') :
    ∃ c', s.checker.forTrackers addr size (fun _ => f) = .ok c' ∧
      Inv { s with
        checker := c'
        env := s.env.call tick
        outstanding := update s.outstanding k none
        history := onBytes s.history addr size fun _ h => h.modify k u } := by
  obtain ⟨hlt, hops⟩ := hs.outstanding k _ hk
  have hbytes : ∀ i < size, ∃ t', f (s.checker.byteTrackers (addr + i)) = .ok t' ∧
      ByteOk (s.env.call tick) ((s.history (addr + i)).modify k u) t' := by
    intro i hi
    obtain ⟨o, ho, hwrite, hp⟩ := hops i hi
    rw [History.modify_some ho]
    exact hf i hi o ho hwrite hp
  have hnext : ∀ i < size,
      Next s.env.calls (s.history (addr + i)) ((s.history (addr + i)).modify k u) := by
    intro i hi
    obtain ⟨o, ho, -, hp⟩ := hops i hi
    obtain ⟨hw, hd, hstart, hstatus⟩ := hu o
    rw [History.modify_some ho]
    exact .finish ho hp hw (fun _ => hd) hstart hstatus
  obtain ⟨c', hrun, hc⟩ := forTrackers_spec s.checker addr size hbytes
  exact ⟨c', hrun, hs.called he hnow s.alarm (fun i h k' hne => h.modify_other u hne)
    (hc.serial ▸ hlt) hc.serial.ge hc
    nofun hnext .inl⟩

theorem Inv.completeWrite (hmeets : ∀ i < size, NoneStarted s (addr + i) false tick) :
    ∃ s', step s ⟨tick, .completeWrite k addr size⟩ = .ok s' ∧ Inv s' := by
  obtain ⟨c', hrun, hi⟩ := hs.endedWrite he hnow hk
    (u := ({ · with status := .complete s.env.calls })) (fun _ => ⟨rfl, rfl, rfl, .inl rfl⟩)
    (f := fun t => t.completeWrite tick k tick)
    fun i hi o ho hwrite hp =>
      (hs.bytes _).completeWrite he hnow ho hwrite hp fun k' r hk' hr hpend =>
      (hmeets i hi).all hs hk' hr (.inr hpend)
  refine ⟨_, ?_, hi⟩
  simp only [step, MemChecker.completeWrite, hrun]
  rfl

theorem Inv.abortWrite : ∃ s', step s ⟨tick, .abortWrite k addr size⟩ = .ok s' ∧ Inv s' := by
  obtain ⟨c', hrun, hi⟩ := hs.endedWrite he hnow hk
    (u := ({ · with status := .aborted })) (fun _ => ⟨rfl, rfl, rfl, .inr rfl⟩)
    (f := fun t => t.abortWrite k) fun i _ o ho hwrite hp =>
      (hs.bytes _).abortWrite hnow ho hwrite hp
  refine ⟨_, ?_, hi⟩
  simp only [step, MemChecker.abortWrite, hrun]
  rfl

end

theorem Inv.completeRead (hk : s.outstanding k = some ⟨false, addr, size⟩)
    (hmeets : ∀ i < size, NoneStarted s (addr + i) true tick) (data : Nat → BitVec 8) :
    ∃ s', step s ⟨tick, .completeRead k addr size data⟩ = .ok s' ∧ Inv s' := by
  obtain ⟨hlt, hops⟩ := hs.outstanding k _ hk
  have hbytes : ∀ i < size, ∃ result t',
    (s.checker.byteTrackers (addr + i)).completeRead tick k tick (data i) =
      .ok (result, t') ∧
      ByteOk (s.env.call tick) ((s.history (addr + i)).modify k (·.done (data i) s.env.calls)) t' ∧
      (Linearizable (ops ((s.history (addr + i)).modify k (·.done (data i) s.env.calls))) →
        result = true) := by
    intro i hi
    obtain ⟨o, ho, hread, hp⟩ := hops i hi
    rw [History.modify_some ho]
    exact (hs.bytes _).completeRead he hnow ho hread hp
      (fun k' w hk' hw => (hmeets i hi).all hs hk' hw (.inl rfl)) (data i)
  obtain ⟨result, c', hrun, hc, hres⟩ := completeRead_spec hbytes
  refine ⟨_, ?_,
    hs.called he hnow (w := none) (s.alarm || !result) (fun i h k' hne => h.modify_other _ hne)
    (hc.serial ▸ hlt) hc.serial.ge hc nofun (fun i hi => ?_) fun ha => ?_⟩
  · simp only [step, hrun]
    rfl
  · obtain ⟨o, ho, hread, hp⟩ := hops i hi
    rw [History.modify_some ho]
    exact .finish ho hp rfl (fun hwrite => by simp [hread] at hwrite) rfl (.inl rfl)
  · rcases Bool.or_eq_true_iff.1 ha with ha | ha
    · exact .inl ha
    · exact .inr (hres (by simpa using ha))

end

theorem Inv.step {l : Label} (hs : Inv s) (hen : enabled s l) (hm : Meets s l) :
    ∃ s', Checker.step s l = .ok s' ∧ Inv s' := by
  obtain ⟨tick, call⟩ := l
  obtain ⟨hpos, hnow, -, hmatch⟩ := hen
  obtain ⟨hlt, hm⟩ := hm
  have he : EnvOk (s.env.call tick) := hs.env.call hnow hpos hlt
  cases call with
  | startRead addr size => exact hs.startRead he hnow
  | startWrite addr size data => exact hs.startWrite he hnow data
  | completeRead k addr size data => exact hs.completeRead he hnow hmatch hm data
  | completeWrite k addr size => exact hs.completeWrite he hnow hmatch hm
  | abortWrite k addr size => exact hs.abortWrite he hnow hmatch

def start : State := ⟨.new, ⟨0, fun _ => 0, 0⟩, fun _ => none, fun _ _ => none, false⟩

theorem Inv.start : Inv Checker.start where
  env := ⟨fun _ _ _ h => absurd h (Nat.not_lt_zero _), fun _ h => absurd h (Nat.not_lt_zero _),
    fun _ h => absurd h (Nat.not_lt_zero _), fun _ h => absurd h (Nat.not_lt_zero _)⟩
  bytes := fun _ => ⟨.empty 0, .new _, fun _ _ _ _ _ h => (nomatch h)⟩
  serials := nofun
  outstanding := nofun
  alarm := nofun

/-- **No false alarm in the runs that keep to `Meets`.** No assertion fails, and if the
history of every byte is linearizable, every `completeRead` has returned true. -/
theorem no_false_alarm {x : Except Fault State} (hr : (machine.under Meets).Reachable x) :
    ∃ s, x = .ok s ∧ ((∀ b, Linearizable (ops (s.history b))) → s.alarm = false) := by
  obtain ⟨s, hx, hi⟩ := total (M := machine) (I := Inv) (fun s hs => hs ▸ .start)
    (fun s l hi hen hm => hi.step hen hm) hr
  refine ⟨s, hx, fun hall => ?_⟩
  by_contra ha
  obtain ⟨b, hb⟩ := hi.alarm (by simpa using ha)
  exact hb (hall b)

/-! ## Runs on fixed calls -/

def History.ofList (l : List (Nat × ByteOp)) : History :=
  l.foldl (fun h p => h.set p.1 p.2) fun _ => none

theorem History.ofList_none (hl : ∀ p ∈ l, p.1 < n) (hk : n ≤ k) : History.ofList l k = none := by
  have hfold : ∀ (l : List (Nat × ByteOp)) h, (∀ p ∈ l, p.1 < n) → h k = none →
      (l.foldl (fun (h : History) p => h.set p.1 p.2) h) k = none := by
    intro l
    induction l with
    | nil => exact fun h _ h0 => h0
    | cons p l ih =>
      intro h hl h0
      refine ih _ (fun q hq => hl q (mem_cons_of_mem _ hq)) ?_
      have hlt := hl p mem_cons_self
      exact (h.set_ne p.2 (by omega)).trans h0
  exact hfold l _ hl rfl

def precedes (a b : Op (BitVec 8)) : Bool := a.complete.any fun c => c < b.start

theorem precedes_iff (a b : Op (BitVec 8)) : precedes a b = true ↔ Precedes a b := by
  unfold precedes Precedes
  cases a.complete with
  | none => simp
  | some c => simp

/-- Whether an order is a linearization of the operations of a list. -/
def explains (rs order : List (Op (BitVec 8))) (init : BitVec 8) : Bool :=
  (∀ o ∈ order, o ∈ rs) ∧ (∀ o ∈ rs, o.complete ≠ none → o ∈ order) ∧ order.Nodup ∧
    order.Pairwise (fun a b => precedes b a = false) ∧ Legal init order

theorem linearizable_ofList (n : Nat) (order : List (Op (BitVec 8))) (init : BitVec 8)
    (hl : ∀ p ∈ l, p.1 < n)
    (h : explains ((range n).filterMap fun k => (History.ofList l k).bind ByteOp.toOp) order init =
      true) :
    Linearizable (ops (History.ofList l)) := by
  simp only [explains, decide_eq_true_eq] at h
  obtain ⟨hmem, hcomplete, hnd, hresp, hlegal⟩ := h
  have hops : ∀ r, r ∈ ops (.ofList l) ↔
      r ∈ (range n).filterMap fun k => (History.ofList l k).bind ByteOp.toOp := by
    intro r
    simp only [mem_filterMap, mem_range]
    constructor
    · rintro ⟨k, o, hk, hr⟩
      refine ⟨k, ?_, by simp [hk, hr]⟩
      by_contra hge
      rw [History.ofList_none hl (not_lt.1 hge)] at hk
      cases hk
    · rintro ⟨k, -, hr⟩
      obtain ⟨o, hk, hr⟩ := Option.bind_eq_some_iff.1 hr
      exact ⟨k, o, hk, hr⟩
  refine ⟨init, order, fun o ho => (hops o).2 (hmem o ho),
    fun o ho => hcomplete o ((hops o).1 ho), hnd, ?_,
    hlegal⟩
  exact hresp.imp fun {a b} hab hp => by simp [(precedes_iff b a).2 hp] at hab

def Call.range : Call → Nat × Nat
  | .startRead addr size | .startWrite addr size _ | .completeRead _ addr size _
  | .completeWrite _ addr size | .abortWrite _ addr size => (addr, size)

theorem step_outside {s' : State} {l : Label} (h : step s l = .ok s')
    (hb : b < l.call.range.1 ∨ l.call.range.1 + l.call.range.2 ≤ b) :
    s'.history b = s.history b := by
  obtain ⟨tick, call⟩ := l
  have hout : ∀ g, onBytes s.history call.range.1 call.range.2 g b = s.history b :=
    fun g => onBytes_outside hb
  cases call with
  | _ =>
    obtain ⟨r, -, hr⟩ := bind_eq_ok.1 h
    cases hr
    simp only [Call.range] at hout
    simp only [hout]

theorem runs_outside (ls : List Label) {s' : State} (h : machine.runs ok (.ok s) ls = some (.ok s'))
    (hb : ∀ l ∈ ls, b < l.call.range.1 ∨ l.call.range.1 + l.call.range.2 ≤ b) :
    s'.history b = s.history b := by
  induction ls generalizing s with
  | nil =>
    simp only [runs, Option.some.injEq, Except.ok.injEq] at h
    rw [h]
  | cons l ls ih =>
    simp only [runs] at h
    split at h
    · cases hs : machine.step s l with
      | error e =>
        rw [hs] at h
        cases ls <;> simp [runs] at h
      | ok s₁ =>
        rw [hs] at h
        rw [ih h fun l' hl' => hb l' (mem_cons_of_mem _ hl')]
        exact step_outside hs (hb l mem_cons_self)
    · cases h

theorem linearizable_none : Linearizable (ops fun _ => none) :=
  ⟨0, [], nofun, nofun, nodup_nil, .nil, trivial⟩

theorem linearizable_byte {ls : List Label}
    (hs : machine.runs ok (.ok start) ls = some (.ok s)) (hls : ∀ l ∈ ls, l.call.range = (0, 1))
    (h : Linearizable (ops (s.history 0))) (b : Nat) : Linearizable (ops (s.history b)) := by
  by_cases hb : b = 0
  · rwa [hb]
  · have hnone : s.history b = fun _ => none := by
      refine runs_outside ls hs fun l hl => ?_
      rw [hls l hl]
      omega
    rw [hnone]
    exact linearizable_none

/-- The byte 0 holds `d`. -/
def byte (d : BitVec 8) : Nat → BitVec 8 := fun _ => d

/-- Two writes one after the other; a read that overlaps the second returns the first. -/
def overlapping : List Label :=
  [⟨1, .startWrite 0 1 (byte 1)⟩, ⟨2, .completeWrite 0 0 1⟩, ⟨3, .startWrite 0 1 (byte 2)⟩,
    ⟨4, .startRead 0 1⟩, ⟨5, .completeWrite 1 0 1⟩, ⟨6, .completeRead 2 0 1 (byte 1)⟩]

def readBehind : History :=
  .ofList [(0, ⟨true, 1, 0, .pending⟩), (0, ⟨true, 1, 0, .complete 1⟩), (1, ⟨true, 2, 2, .pending⟩),
    (2, ⟨false, 0, 3, .pending⟩), (1, ⟨true, 2, 2, .complete 4⟩), (2, ⟨false, 1, 3, .complete 5⟩)]

theorem linearizable_readBehind : Linearizable (ops readBehind) :=
  linearizable_ofList 3 [⟨true, 1, 0, some 1⟩, ⟨false, 1, 3, some 5⟩,
    ⟨true, 2, 2, some 4⟩] 0 (by decide) (by decide)

instance (s : State) : (l : Label) → Decidable (enabled s l)
  | ⟨_, c⟩ => by cases c <;> dsimp only [enabled, Matches] <;> infer_instance

instance (s : State) : (l : Label) → Decidable (Meets s l)
  | ⟨_, c⟩ => by cases c <;> dsimp only [Meets] <;> infer_instance

theorem no_false_alarm_overlapping :
    ∃ s, (machine.under Meets).Reachable (.ok s) ∧ s.env.calls = 6 ∧
      (∀ b, Linearizable (ops (s.history b))) ∧ s.alarm = false := by
  obtain ⟨s, hs, hcalls, hhist⟩ : ∃ s,
    machine.runs (fun s l => decide (enabled s l ∧ Meets s l)) (.ok start) overlapping =
      some (.ok s) ∧ s.env.calls = 6 ∧ s.history 0 = readBehind := ⟨_, rfl, rfl, rfl⟩
  have hr := under_decided
    (P := fun s l => enabled s l ∧ Meets s l) (fun _ _ => id) overlapping rfl hs
  have hlin : ∀ b, Linearizable (ops (s.history b)) := by
    refine linearizable_byte hs (by simp [overlapping, Call.range]) ?_
    rw [hhist]
    exact linearizable_readBehind
  obtain ⟨s', hs', halarm⟩ := no_false_alarm hr
  cases hs'
  exact ⟨s, hr, hcalls, hlin, halarm hlin⟩

/-- **False alarms.** A read and the write that overlaps it, started and complete at tick 5
in this order: the read returns the older value and is rejected. A read of the initial value
that is complete at the tick at which a write starts: the check fails its assertion. -/
theorem false_alarm :
    (∃ s, machine.lts.Reachable (.ok s) ∧ (∀ b, Linearizable (ops (s.history b))) ∧
      s.alarm = true) ∧
    ∃ s, machine.lts.Reachable (.ok s) ∧ enabled s ⟨2, .completeRead 0 0 1 (byte 0)⟩ ∧
      step s ⟨2, .completeRead 0 0 1 (byte 0)⟩ = .error (.assertion .clustersOverlapRead) ∧
      ∀ b, Linearizable (ops
        (onBytes s.history 0 1 (fun i h => h.modify 0 (·.done (byte 0 i) s.env.calls)) b)) := by
  have hr := fun ls {y} => lts_decided (M := machine)
    (P := enabled) (fun _ _ => id) ls (y := y) rfl
  constructor
  · obtain ⟨s, hs, halarm, hhist⟩ : ∃ s, machine.runs (fun s l => decide (enabled s l)) (.ok start)
        [⟨1, .startWrite 0 1 (byte 1)⟩, ⟨2, .completeWrite 0 0 1⟩, ⟨3, .startWrite 0 1 (byte 2)⟩,
          ⟨5, .startRead 0 1⟩, ⟨5, .completeWrite 1 0 1⟩,
            ⟨6, .completeRead 2 0 1 (byte 1)⟩] = some (.ok s) ∧
        s.alarm = true ∧ s.history 0 = readBehind := ⟨_, rfl, rfl, rfl⟩
    refine ⟨s, hr _ hs, linearizable_byte hs (by simp [Call.range]) ?_, halarm⟩
    rw [hhist]
    exact linearizable_readBehind
  · obtain ⟨s, hs, hen, herr, hhist⟩ : ∃ s,
      machine.runs (fun s l => decide (enabled s l)) (.ok start)
        [⟨1, .startRead 0 1⟩, ⟨2, .startWrite 0 1 (byte 1)⟩] = some (.ok s) ∧
        enabled s ⟨2, .completeRead 0 0 1 (byte 0)⟩ ∧
        step s ⟨2, .completeRead 0 0 1 (byte 0)⟩ = .error (.assertion .clustersOverlapRead) ∧
        (s.history 0).modify 0 (·.done 0 s.env.calls) = .ofList [(0, ⟨false, 0, 0, .pending⟩),
          (1, ⟨true, 1, 1, .pending⟩), (0, ⟨false, 0, 0, .complete 2⟩)] :=
      ⟨_, rfl, by decide, rfl, rfl⟩
    refine ⟨s, hr _ hs, hen, herr, fun b => ?_⟩
    by_cases hb : b = 0
    · have hin : onBytes s.history 0 1 (fun i h => h.modify 0 (·.done (byte 0 i) s.env.calls)) b =
          (s.history 0).modify 0 (·.done 0 s.env.calls) := by
        rw [hb]
        rfl
      rw [hin, hhist]
      exact linearizable_ofList 2 [⟨false, 0, 0, some 2⟩] 0 (by decide) (by decide)
    · have hnone : s.history b = fun _ => none :=
        runs_outside _ hs (by simp [Call.range]; omega)
      rw [onBytes_outside (by omega), hnone]
      exact linearizable_none

end Gem5Cxl.L3.Checker
