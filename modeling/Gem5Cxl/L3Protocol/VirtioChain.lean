import Gem5Cxl.Core.Chain
import Gem5Cxl.L2Machine.VirtDescriptor
import Mathlib.Data.List.Perm.Subperm

/-!
# Descriptor chains of virtio

* `updateChain_ends_iff`: consuming a head ends, within as many descriptors as the queue has,
  exactly if its chain ends or comes back to the head. If it ends, it can then be traversed.
* `updateChain_endless`: the loop test compares with the head only, so that a chain that runs into
  another loop is read for ever.
-/
namespace Gem5Cxl.L3.VirtioChain

open Core L1 L2.Virtio List

/-- **Loops without the head.** The second descriptor is its own successor. -/
theorem updateChain_endless :
    ¬ ∃ fuel, (updateChain (fun _ => { hasNext := true, next := 1 }) 0 fuel
      ⟨2, 1, fun _ => {}⟩ 0).run.isSome := by
  have hone : ∀ fuel d,
      updateChain (fun _ => { hasNext := true, next := 1 }) 0 fuel ⟨2, 1, d⟩ 1 = none := by
    intro fuel
    induction fuel with
    | zero => exact fun _ => rfl
    | succ fuel ih => exact fun d => ih _
  rintro ⟨fuel, h⟩
  cases fuel with
  | zero => cases h
  | succ fuel => exact absurd ((congrArg Option.isSome (hone fuel _)).symm.trans h) (by decide)

/-- From the head the successors lead to a descriptor without one, or back to the head. -/
def Ends (guest : Nat → VringDesc) (this : Nat) : Prop :=
  ∃ l b, Chain (fun j => (guest j).next?) (guest this).next? l b ∧ this ∉ l ∧
    (b = none ∨ b = some this)

/-- What consuming a head is to come to: a panic over a loop, or a chain that has been read and can
be traversed, within as many descriptors as the queue has. -/
def Consumed (guest : Nat → VringDesc) (q : VirtQueue) (this : Nat) : Prop :=
  ∃ r, updateChain guest this q.size q this = some r ∧ (∀ e, r = .error e → e = loopPanic) ∧
    ∀ q', r = .ok q' →
      (∃ l, Chain (fun j => (guest j).next?) (guest this).next? l none ∧
        ∀ j ∈ this :: l, q'.descriptors j = guest j) ∧
      (∃ r, chainSize q'.descriptors q.size this = some r) ∧ ∀ mem offset,
        (∀ size, ∃ r, chainRead mem q'.descriptors q.size this offset size = some r) ∧
          ∀ src, ∃ r, chainWrite mem q'.descriptors q.size this offset src = some r

variable {guest : Nat → VringDesc} {this i n : Nat} {l : List Nat} {b : Option Nat}

theorem update_ok {q : VirtQueue} (haddr : q.address ≠ 0) (hi : i < q.size) :
    update q guest i = .ok { q with descriptors := Function.update q.descriptors i (guest i) } := by
  rw [update, if_neg haddr, if_pos hi]

/-- A descriptor that has been read stays as it is. -/
theorem read_stays {d : Nat → VringDesc} {j : Nat} (hj : d j = guest j) :
    Function.update d i (guest i) j = guest j := by
  by_cases heq : j = i
  · rw [heq, Function.update_self]
  · rw [Function.update_of_ne heq, hj]

theorem lift_ok {α β : Type} (a : α) (f : α → ExceptT Fault Option β) :
    (do let x ← (Except.ok a : Except Fault α); f x) = f a := rfl

theorem map_some {α β : Type} {x : ExceptT Fault Option α} {r : Except Fault α} (f : α → β)
    (h : x = some r) : f <$> x = some (f <$> r) := by
  rw [h]
  cases r <;> rfl

/-- The loop along a chain. -/
theorem updateChain_along {q : VirtQueue} (haddr : q.address ≠ 0) (hin : ∀ j ∈ i :: l, j < q.size)
    (hc : Chain (fun j => (guest j).next?) (guest i).next? l b) (hthis : this ∉ l)
    (hb : b = none ∨ b = some this) :
    ∃ d, (∀ j ∈ i :: l, d j = guest j) ∧ (∀ j, q.descriptors j = guest j → d j = guest j) ∧
      updateChain guest this (n + l.length + 1) q i =
        some (if b = none then .ok { q with descriptors := d } else .error loopPanic) := by
  induction l generalizing q i with
  | nil =>
    refine ⟨_, forall_mem_singleton.2 (Function.update_self ..), fun _ => read_stays, ?_⟩
    rw [updateChain, update_ok haddr (hin i mem_cons_self), lift_ok]
    simp only [Function.update_self, chain_nil.1 hc]
    rcases hb with rfl | rfl
    · rfl
    · exact if_pos rfl
  | cons j l ih =>
    obtain ⟨hi, hin⟩ := forall_mem_cons.1 hin
    obtain ⟨hj, hthis⟩ := not_or.1 fun h => hthis (mem_cons.2 h)
    obtain ⟨d, hd, hold, hrun⟩ := ih
      (q := { q with descriptors := Function.update q.descriptors i (guest i) }) haddr hin hc.2
      hthis
    refine ⟨d, forall_mem_cons.2 ⟨hold i (Function.update_self ..), hd⟩,
      fun k hk => hold k (read_stays hk), ?_⟩
    rw [updateChain, update_ok haddr hi, lift_ok]
    simp only [Function.update_self, hc.1]
    rw [if_neg (Ne.symm hj)]
    exact hrun

section

variable {d : Nat → VringDesc} (hc : Chain (fun j => (d j).next?) (d i).next? l none)
include hc

theorem traverse_ends {σ : Type} (visit : σ → VringDesc → Except Fault σ)
    (more : σ → VringDesc → Bool) (s : σ) :
    ∃ r, L2.Virtio.traverse d visit more (n + l.length + 1) i s = some r := by
  induction l generalizing i s with
  | nil =>
    rw [L2.Virtio.traverse, chain_nil.1 hc]
    cases visit s (d i) <;> exact ⟨_, rfl⟩
  | cons j l ih =>
    rw [L2.Virtio.traverse, hc.1]
    cases visit s (d i) with
    | error e => exact ⟨_, rfl⟩
    | ok s =>
      rw [lift_ok]
      by_cases hj : more s (d j) = true
      · obtain ⟨r, hr⟩ := ih hc.2 s
        exact ⟨r, (if_pos hj).trans hr⟩
      · exact ⟨_, if_neg hj⟩

theorem chainAccess_ends {α : Type} (access : α → VringDesc → Nat → Nat → Except Fault α)
    (more : VringDesc → Bool) (failed : Nat → Nat → Fault) (offset size : Nat) (a : α) :
    ∃ r, chainAccess access more failed d (n + l.length + 1) i offset size a = some r := by
  obtain ⟨r, hr⟩ := traverse_ends (n := n) hc (accessPart access)
    (fun s d => more d && 0 < s.2.1) (offset, size, a)
  obtain ⟨m, hm : chainSize d _ i = some m⟩ := traverse_ends (n := n) hc _ _ 0
  rw [chainAccess, hr, hm]
  cases r with
  | error e => exact ⟨_, rfl⟩
  | ok s =>
    by_cases hs : s.2.1 = 0
    · exact ⟨_, if_pos hs⟩
    · cases m <;> exact ⟨_, if_neg hs⟩

end

section

variable {q : VirtQueue} (haddr : q.address ≠ 0)
  (hnext : ∀ i < q.size, ∀ j, (guest i).next? = some j → j < q.size)

include hnext

/-- A chain stays in the queue. -/
theorem chain_lt (hi : i < q.size) (hc : Chain (fun j => (guest j).next?) (guest i).next? l b) :
    ∀ j ∈ i :: l, j < q.size := by
  induction l generalizing i with
  | nil => exact forall_mem_singleton.2 hi
  | cons j l ih => exact forall_mem_cons.2 ⟨hi, ih (hnext i hi j hc.1) hc.2⟩

include haddr

/-- A run that comes to a result has followed a chain. -/
theorem chain_of_updateChain {fuel : Nat} {r : Except Fault VirtQueue} (hi : i < q.size)
    (h : updateChain guest this fuel q i = some r) :
    ∃ l b, Chain (fun j => (guest j).next?) (guest i).next? l b ∧ this ∉ l ∧
      (b = none ∨ b = some this) := by
  induction fuel generalizing q i with
  | zero => cases h
  | succ fuel ih =>
    rw [updateChain, update_ok haddr hi, lift_ok] at h
    simp only [Function.update_self] at h
    cases hj : (guest i).next? with
    | none => exact ⟨[], none, rfl, not_mem_nil, .inl rfl⟩
    | some j =>
      simp only [hj] at h
      by_cases hjt : j = this
      · exact ⟨[], some j, rfl, not_mem_nil, .inr (congrArg some hjt)⟩
      · rw [if_neg hjt] at h
        obtain ⟨l, b, hc, hl, hb⟩ := ih
          (q := { q with descriptors := Function.update _ i (guest i) }) haddr hnext
          (hnext i hi j hj) h
        exact ⟨j :: l, b, ⟨rfl, hc⟩, not_mem_cons_of_ne_of_not_mem (Ne.symm hjt) hl, hb⟩

theorem consumed_of_ends (hthis : this < q.size) (h : Ends guest this) : Consumed guest q this := by
  obtain ⟨l, b, hc, hl, hb⟩ := h
  have hin := chain_lt hnext hthis hc
  have hnodup := hc.nodup fun x hx hbx => hb.elim (fun hb => by cases hb.symm.trans hbx) fun hb =>
    hl (Option.some.inj (hb.symm.trans hbx) ▸ hx)
  have hlen := (subperm_of_subset (nodup_cons.2 ⟨hl, hnodup⟩)
    fun j hj => mem_range.2 (hin j hj)).length_le
  rw [length_range] at hlen
  obtain ⟨n, hn : q.size = n + l.length + 1⟩ := Nat.exists_eq_add_of_le' hlen
  obtain ⟨d, hd, -, hrun⟩ := updateChain_along (n := n) haddr hin hc hl hb
  rw [← hn] at hrun
  refine ⟨_, hrun, ?_⟩
  cases b with
  | some j => exact ⟨fun _ he => (Except.error.inj he).symm, nofun⟩
  | none =>
    refine ⟨nofun, fun q' hq => ?_⟩
    cases hq
    obtain ⟨hself, hrest⟩ := forall_mem_cons.1 hd
    have hcd : Chain (fun j => (d j).next?) (d this).next? l none := by
      rw [hself]
      exact hc.congr fun j hj => congrArg VringDesc.next? (hrest j hj)
    rw [hn]
    refine ⟨⟨l, hc, hd⟩, traverse_ends hcd .., fun mem offset =>
      ⟨fun size => chainAccess_ends hcd .., fun src => ?_⟩⟩
    obtain ⟨r, hr⟩ := chainAccess_ends hcd ..
    exact ⟨_, map_some _ hr⟩

end

/-- **Which chains are consumed.** In a queue that has been set up, with a table of the guest whose
next indices are within it, consuming a head comes to a result exactly if its chain ends or comes
back to the head; for any other head `updateChain` goes on for ever. -/
theorem updateChain_ends_iff (guest : Nat → VringDesc) {q : VirtQueue} (haddr : q.address ≠ 0)
    (hnext : ∀ i < q.size, ∀ j, (guest i).next? = some j → j < q.size) (hthis : this < q.size) :
    (Consumed guest q this ↔ Ends guest this) ∧
      (¬ Ends guest this → ∀ fuel, updateChain guest this fuel q this = none) := by
  refine ⟨⟨fun h => ?_, consumed_of_ends haddr hnext hthis⟩, fun hne fuel => ?_⟩
  · obtain ⟨r, hr, -⟩ := h
    exact chain_of_updateChain haddr hnext hthis hr
  · cases hr : updateChain guest this fuel q this with
    | none => rfl
    | some r => exact absurd (chain_of_updateChain haddr hnext hthis hr) hne

/-- Two descriptors, one after the other. -/
theorem updateChain_ends_iff_two :
    let guest i : VringDesc := { hasNext := i = 0, next := 1 }
    ∃ q', updateChain guest 0 2 ⟨2, 1, fun _ => {}⟩ 0 = some (.ok q') ∧
      ∃ r, chainSize q'.descriptors 2 0 = some r := by
  intro guest
  have hends : Ends guest 0 := ⟨[1], none, ⟨rfl, rfl⟩, by decide, .inl rfl⟩
  obtain ⟨r, hrun, -, hread⟩ := (updateChain_ends_iff guest (q := ⟨2, 1, fun _ => {}⟩) (by decide)
    (by simp [guest, VringDesc.next?]) (by decide)).1.2 hends
  cases hrun
  exact ⟨_, rfl, (hread _ rfl).2.1⟩

end Gem5Cxl.L3.VirtioChain
