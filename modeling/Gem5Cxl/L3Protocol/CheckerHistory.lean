import Gem5Cxl.Core.Register
import Gem5Cxl.L2Machine.MemChecker

/-!
# What the memory checker's callers did to one byte

Calls are numbered; `Env` is the clock that gives each call its tick. A byte's history
has, for each serial number, the operation on the byte. The history does not belong to
the checker, which sees ticks only and forgets what it prunes.

* `ops`: the operations of a history as those of an atomic register; a write that is
  aborted is none, and a read is one once it is complete.
* `HistoryOk`: operations are complete after they start, and no call starts two.
* `linearizable_before`: a history was linearizable before a call if it is after it.
-/
namespace Gem5Cxl.L3.Checker

open Core Core.Register L2.Checker Function

/-! ## Time -/

/-- `calls` calls have been made; the last one at tick `now`. -/
structure Env where
  calls : Nat
  clock : Nat → Nat
  now : Nat

def Env.call (e : Env) (tick : Nat) : Env where
  calls := e.calls + 1
  clock := update e.clock e.calls tick
  now := tick

/-- Ticks do not decrease, and lie between the two the checker uses for its own ends. -/
structure EnvOk (e : Env) : Prop where
  mono : ∀ i j, i ≤ j → j < e.calls → e.clock i ≤ e.clock j
  last : ∀ i < e.calls, e.clock i ≤ e.now
  pos : ∀ i < e.calls, 0 < e.clock i
  lt : ∀ i < e.calls, e.clock i < tickFuture

variable {e : Env} {tick : Nat}

theorem Env.call_clock {i : Nat} (hi : i < e.calls) : (e.call tick).clock i = e.clock i :=
  update_of_ne (ne_of_lt hi) _ _

@[simp] theorem Env.call_clock_new (e : Env) (tick : Nat) : (e.call tick).clock e.calls = tick :=
  update_self ..

theorem EnvOk.call (he : EnvOk e) (hnow : e.now ≤ tick) (hpos : 0 < tick)
    (hlt : tick < tickFuture) : EnvOk (e.call tick) := by
  have hcases : ∀ i < e.calls + 1, i < e.calls ∧ (e.call tick).clock i = e.clock i ∨
      i = e.calls ∧ (e.call tick).clock i = tick := by
    intro i hi
    rcases lt_or_eq_of_le (Nat.le_of_lt_succ hi) with hlt | rfl
    · exact .inl ⟨hlt, Env.call_clock hlt⟩
    · exact .inr ⟨rfl, Env.call_clock_new e tick⟩
  have hlast : ∀ i < e.calls + 1, (e.call tick).clock i ≤ tick := by
    intro i hi
    rcases hcases i hi with ⟨hi, hc⟩ | ⟨-, hc⟩
    · exact hc ▸ (he.last i hi).trans hnow
    · exact le_of_eq hc
  refine ⟨fun i j hij hj => ?_, hlast, fun i hi => ?_, fun i hi => ?_⟩
  · rcases hcases j hj with ⟨hj', hc⟩ | ⟨-, hc⟩
    · rw [hc, Env.call_clock (lt_of_le_of_lt hij hj')]
      exact he.mono i j hij hj'
    · rw [hc]
      exact hlast i (lt_of_le_of_lt hij hj)
  · rcases hcases i hi with ⟨hi, hc⟩ | ⟨-, hc⟩
    · exact hc ▸ he.pos i hi
    · rwa [hc]
  · rcases hcases i hi with ⟨hi, hc⟩ | ⟨-, hc⟩
    · exact hc ▸ he.lt i hi
    · rwa [hc]

theorem EnvOk.lt_of_clock (he : EnvOk e) {i j : Nat} (hi : i < e.calls)
    (h : e.clock i < e.clock j) : i < j := by
  by_contra hji
  exact absurd (he.mono j i (not_lt.1 hji) hi) (not_le.2 h)

/-! ## Operations -/

inductive Status
  | pending
  | complete (call : Nat)
  | aborted
deriving DecidableEq, Repr

/-- An operation on a byte. The data of a read is there once it is complete. -/
structure ByteOp where
  isWrite : Bool
  data : BitVec 8
  start : Nat
  status : Status
deriving DecidableEq, Repr

abbrev History := Nat → Option ByteOp

/-- The operation as one on a register. -/
def ByteOp.toOp (o : ByteOp) : Option (Op (BitVec 8)) :=
  match o.status with
  | .pending => if o.isWrite then some ⟨true, o.data, o.start, none⟩ else none
  | .complete c => some ⟨o.isWrite, o.data, o.start, some c⟩
  | .aborted => none

def ops (h : History) : Set (Op (BitVec 8)) := {r | ∃ k o, h k = some o ∧ o.toOp = some r}

/-- A history of calls before call `m`. -/
structure HistoryOk (m : Nat) (h : History) : Prop where
  start_lt : ∀ k o, h k = some o → o.start < m
  complete_lt : ∀ k o c, h k = some o → o.status = .complete c → o.start < c ∧ c < m
  inj : ∀ k k' o o', h k = some o → h k' = some o' → o.start = o'.start → k = k'

theorem HistoryOk.empty (m : Nat) : HistoryOk m fun _ => none :=
  ⟨nofun, nofun, nofun⟩

variable {m k : Nat} {h : History} {o : ByteOp} {o' : ByteOp} {k' : Nat} {r : Op (BitVec 8)}

theorem HistoryOk.later (hok : HistoryOk m h) : HistoryOk (m + 1) h :=
  ⟨fun k o hk => Nat.lt_succ_of_lt (hok.start_lt k o hk),
    fun k o c hk hc => ⟨(hok.complete_lt k o c hk hc).1, Nat.lt_succ_of_lt (hok.complete_lt k o c hk hc).2⟩,
    hok.inj⟩

/-- What the operation on the register has of the one on the byte. -/
theorem toOp_spec (hr : o.toOp = some r) :
    r.isWrite = o.isWrite ∧ r.value = o.data ∧ r.start = o.start ∧
      (o.status = .pending ∧ o.isWrite = true ∧ r.complete = none ∨
        ∃ c, o.status = .complete c ∧ r.complete = some c) := by
  unfold ByteOp.toOp at hr
  split at hr
  · rename_i hp
    split at hr
    · rename_i hw
      cases hr
      exact ⟨hw.symm, rfl, rfl, .inl ⟨hp, hw, rfl⟩⟩
    · cases hr
  · rename_i c hc
    cases hr
    exact ⟨rfl, rfl, rfl, .inr ⟨c, hc, rfl⟩⟩
  · cases hr

theorem toOp_complete {c : Nat} (hr : o.toOp = some r) (hc : r.complete = some c) :
    o.status = .complete c := by
  obtain ⟨-, -, -, ⟨-, -, hn⟩ | ⟨d, hd, hr⟩⟩ := toOp_spec hr
  · exact absurd (hn.symm.trans hc) (by simp)
  · cases hr.symm.trans hc
    exact hd

theorem HistoryOk.forward (hok : HistoryOk m h) : Forward (ops h) := by
  rintro r ⟨k, o, hk, hr⟩ ⟨c, hc, hlt⟩
  have hstart := (hok.complete_lt k o c hk (toOp_complete hr hc)).1
  exact absurd ((toOp_spec hr).2.2.1 ▸ hlt) hstart.asymm

/-- The history with an operation put in place of another, or added. -/
def History.set (h : History) (k : Nat) (o : ByteOp) : History := update h k (some o)

@[simp] theorem History.set_self (h : History) (k : Nat) (o : ByteOp) : h.set k o k = some o :=
  update_self ..

theorem History.set_ne (h : History) (o : ByteOp) (hne : k' ≠ k) :
    h.set k o k' = h k' := update_of_ne hne _ _

theorem History.set_cases (hk : h.set k o k' = some o') :
    k' = k ∧ o' = o ∨ k' ≠ k ∧ h k' = some o' := by
  by_cases hne : k' = k
  · subst hne
    rw [History.set_self] at hk
    cases hk
    exact .inl ⟨rfl, rfl⟩
  · exact .inr ⟨hne, (h.set_ne o hne) ▸ hk⟩

/-- Call `m` writes the entry of `k`; no other operation started when `o` did. -/
theorem HistoryOk.set (hok : HistoryOk m h) (hstart : o.start ≤ m)
    (hcomplete : ∀ c, o.status = .complete c → o.start < c ∧ c < m + 1)
    (honly : ∀ k' o', h k' = some o' → o'.start = o.start → k' = k) :
    HistoryOk (m + 1) (h.set k o) := by
  refine ⟨fun k₁ o₁ h₁ => ?_, fun k₁ o₁ c h₁ hc => ?_, fun k₁ k₂ o₁ o₂ h₁ h₂ heq => ?_⟩
  · rcases History.set_cases h₁ with ⟨-, rfl⟩ | ⟨-, h₁⟩
    · exact Nat.lt_succ_of_le hstart
    · exact hok.later.start_lt k₁ o₁ h₁
  · rcases History.set_cases h₁ with ⟨-, rfl⟩ | ⟨-, h₁⟩
    · exact hcomplete c hc
    · exact hok.later.complete_lt k₁ o₁ c h₁ hc
  · rcases History.set_cases h₁ with ⟨hk₁, ho₁⟩ | ⟨-, h₁'⟩ <;>
      rcases History.set_cases h₂ with ⟨hk₂, ho₂⟩ | ⟨-, h₂'⟩
    · rw [hk₁, hk₂]
    · rw [hk₁, honly k₂ o₂ h₂' (heq.symm.trans (ho₁ ▸ rfl))]
    · rw [hk₂, honly k₁ o₁ h₁' (heq.trans (ho₂ ▸ rfl))]
    · exact hok.inj _ _ _ _ h₁' h₂' heq

theorem HistoryOk.start (hok : HistoryOk m h)
    (ho : o.start = m) (hs : o.status = .pending) : HistoryOk (m + 1) (h.set k o) := by
  refine hok.set ho.le (fun c hc => ?_) fun k' o' hk' heq => ?_
  · rw [hs] at hc
    cases hc
  · exact absurd (heq.trans ho) (hok.start_lt k' o' hk').ne

theorem HistoryOk.finish (hok : HistoryOk m h) (o' : ByteOp) (hk : h k = some o)
    (hstart : o'.start = o.start)
    (hs : o'.status = .complete m ∨ o'.status = .aborted) : HistoryOk (m + 1) (h.set k o') := by
  have ho := hok.start_lt k o hk
  refine hok.set (hstart ▸ ho.le) (fun c hc => ?_) fun k₁ o₁ h₁ heq => ?_
  · rcases hs with hs | hs <;> rw [hs] at hc <;> cases hc
    omega
  · exact hok.inj _ _ _ _ h₁ hk (heq.trans hstart)

/-! ## Linearizability before a call -/

/-- The history `h'` after call `m`, which starts or ends an operation. -/
def Next (m : Nat) (h h' : History) : Prop := ∀ k, h' k = h k ∨
  (h k = none ∧ ∃ o', h' k = some o' ∧ o'.start = m ∧ o'.status = .pending) ∨
  ∃ o o', h k = some o ∧ o.status = .pending ∧ h' k = some o' ∧ o'.isWrite = o.isWrite ∧
    (o.isWrite = true → o'.data = o.data) ∧ o'.start = o.start ∧
    (o'.status = .complete m ∨ o'.status = .aborted)

theorem Next.start (hk : h k = none) (ho : o.start = m) (hs : o.status = .pending) :
    Next m h (h.set k o) := by
  intro k'
  by_cases hne : k' = k
  · subst hne
    exact .inr (.inl ⟨hk, o, h.set_self k' o, ho, hs⟩)
  · exact .inl (h.set_ne o hne)

theorem Next.finish (hk : h k = some o) (hp : o.status = .pending) (hw : o'.isWrite = o.isWrite)
    (hd : o.isWrite = true → o'.data = o.data) (hstart : o'.start = o.start)
    (hs : o'.status = .complete m ∨ o'.status = .aborted) : Next m h (h.set k o') := by
  intro k'
  by_cases hne : k' = k
  · subst hne
    exact .inr (.inr ⟨o, o', hk, hp, h.set_self k' o', hw, hd, hstart, hs⟩)
  · exact .inl (h.set_ne o' hne)

theorem linearizable_before {h' : History} (hok : HistoryOk m h) (hok' : HistoryOk (m + 1) h')
    (hnext : Next m h h') (hl : Linearizable (ops h')) : Linearizable (ops h) := by
  -- an operation of the old history is as it was before the call
  have hself : ∀ k o r, h k = some o → o.toOp = some r → r.before m = some r := by
    intro k o r hk hr
    refine before_self ((toOp_spec hr).2.2.1 ▸ hok.start_lt k o hk) fun c hc => ?_
    exact (hok.complete_lt k o c hk (toOp_complete hr hc)).2
  refine hl.earlier (m := m) ?_ ?_ ?_ ?_
  · rintro r ⟨k, o, -, hr⟩ hread hnone
    obtain ⟨hw, -, -, ⟨-, hwrite, -⟩ | ⟨c, -, hc⟩⟩ := toOp_spec hr
    · simp [hw, hwrite] at hread
    · simp [hc] at hnone
  · rintro a ⟨k, o, hk, ha⟩ b ⟨k', o', hk', hb⟩ heq
    rw [(toOp_spec ha).2.2.1, (toOp_spec hb).2.2.1] at heq
    cases hok'.inj k k' o o' hk hk' heq
    cases hk.symm.trans hk'
    exact Option.some.inj (ha.symm.trans hb)
  · rintro r ⟨k, o', hk', hr⟩ a ha
    obtain hsame | ⟨-, o₁, ho₁, hstart, -⟩ | ⟨o, o₁, hk, hp, ho₁, hw, hd, hstart, hs⟩ := hnext k
    · rw [hsame] at hk'
      cases (hself k o' r hk' hr).symm.trans ha
      exact ⟨k, o', hk', hr⟩
    · -- it starts with the call
      cases ho₁.symm.trans hk'
      have hnone : r.before m = none := if_pos (((toOp_spec hr).2.2.1.trans hstart).ge)
      cases hnone.symm.trans ha
    · cases ho₁.symm.trans hk'
      have hlt := hok.start_lt k o hk
      rcases hs with hs | hs <;> simp only [ByteOp.toOp, hs] at hr <;> cases hr
      -- a write that is complete with the call was pending
      cases hwrite : o.isWrite
      · simp [Op.before, hw, hwrite] at ha
      · refine ⟨k, o, hk, ?_⟩
        simpa [ByteOp.toOp, Op.before, hp, hw, hwrite, hd hwrite, hstart, hlt] using ha
  · rintro r ⟨k, o, hk, hr⟩ hc
    refine ⟨⟨k, o, ?_, hr⟩, hself k o r hk hr⟩
    obtain ⟨c, hc⟩ := Option.ne_none_iff_exists'.1 hc
    obtain hsame | ⟨hnone, -⟩ | ⟨o₁, -, hk₁, hp, -⟩ := hnext k
    · exact hsame.trans hk
    · cases hnone.symm.trans hk
    · cases hk₁.symm.trans hk
      cases hp.symm.trans (toOp_complete hr hc)

end Gem5Cxl.L3.Checker
