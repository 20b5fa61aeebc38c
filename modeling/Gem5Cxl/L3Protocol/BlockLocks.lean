import Gem5Cxl.L2Machine.CacheBlk

/-!
# Store-conditionals at a cache block

A store-conditional succeeds if its range lies in a listed one of its context.

* `swap_keeps_lock`: swaps and atomic operations do not go through `checkWrite`, so that the locks
  of other contexts survive them.
* `storeCond_atomic`: a store-conditional that succeeds lies in the range of its context's latest
  load-locked around it, and no store or store-conditional of another context has touched that
  range since.
-/
namespace Gem5Cxl.L3.BlockLocks

open L2.CacheBlk

/-- The locks after a history, the latest access first. -/
def locks : List Access → List Lock
  | [] => []
  | a :: older => (satisfyRequest (locks older) a).2

/-- **Swaps keep locks.** A store-conditional succeeds although another context has swapped the
same bytes since the load-locked. -/
theorem swap_keeps_lock :
    let r (c : Nat) : Request := ⟨c, 0, 8, by decide⟩
    (satisfyRequest (locks [⟨.swap true, r 1⟩, ⟨.loadLocked, r 0⟩]) ⟨.storeCond, r 0⟩).1 =
      true := by
  decide

/-- The access leaves the lock: it is a swap, or a write of the lock's context, or it is
elsewhere. -/
def Spares (l : Lock) (a : Access) : Prop :=
  (∃ w, a.cmd = .swap w) ∨ a.cmd ≠ .loadLocked ∧ a.req.contextId = l.contextId ∨
    l.intersects a.req = false

variable {lockList : List Lock} {l : Lock}

theorem mem_clearLoadLocks {req : Request} (h : l ∈ clearLoadLocks lockList req) :
    l ∈ lockList ∧ (req.contextId = l.contextId ∨ l.intersects req = false) := by
  obtain ⟨hmem, hkept⟩ := List.mem_filter.1 h
  refine ⟨hmem, ?_⟩
  by_cases hc : req.contextId = l.contextId
  · exact .inl hc
  · exact .inr (by simpa [Ne.symm hc] using hkept)

theorem mem_satisfyRequest {a : Access} (h : l ∈ (satisfyRequest lockList a).2) :
    a.cmd = .loadLocked ∧ l = .new a.req ∨ l ∈ lockList ∧ Spares l a := by
  obtain ⟨cmd, req⟩ := a
  cases cmd with
  | loadLocked =>
    rcases List.mem_cons.1 h with rfl | hold
    · exact .inl ⟨rfl, rfl⟩
    · obtain ⟨hmem, hi⟩ := List.mem_filter.1 hold
      exact .inr ⟨hmem, .inr (.inr (by simpa using hi))⟩
  | store =>
    cases lockList with
    | nil => cases h
    | cons l' lockList =>
      obtain ⟨hmem, hkept⟩ := mem_clearLoadLocks h
      exact .inr ⟨hmem, .inr (hkept.imp_left fun hc => ⟨nofun, hc⟩)⟩
  | storeCond =>
    obtain ⟨hmem, hkept⟩ := mem_clearLoadLocks h
    exact .inr ⟨List.mem_of_mem_eraseP hmem, .inr (hkept.imp_left fun hc => ⟨nofun, hc⟩)⟩
  | swap w => exact .inr ⟨h, .inl ⟨w, rfl⟩⟩

/-- A lock is that of a load-locked, and no later access has cleared it. -/
theorem exists_loadLocked {older : List Access} (h : l ∈ locks older) :
    ∃ post ll pre, older = post ++ ⟨.loadLocked, ll⟩ :: pre ∧ l = .new ll ∧
      ∀ a ∈ post, Spares l a := by
  induction older with
  | nil => cases h
  | cons a older ih =>
    rcases mem_satisfyRequest h with ⟨hcmd, rfl⟩ | ⟨hmem, hspares⟩
    · exact ⟨[], a.req, older, by rw [← hcmd]; rfl, rfl, nofun⟩
    · obtain ⟨post, ll, pre, rfl, hl, hpost⟩ := ih hmem
      exact ⟨a :: post, ll, pre, rfl, hl, List.forall_mem_cons.2 ⟨hspares, hpost⟩⟩

/-- **Store-conditionals are atomic but for swaps.** The range of one that succeeds lies in that of
its context's latest load-locked around it, and what another context has done to a byte of that
range since is a swap or an atomic operation. -/
theorem storeCond_atomic (older : List Access) (req : Request)
    (h : (satisfyRequest (locks older) ⟨.storeCond, req⟩).1 = true) :
    ∃ post ll pre, older = post ++ ⟨.loadLocked, ll⟩ :: pre ∧ (Lock.new ll).matches req = true ∧
      ∀ a ∈ post, (a.cmd = .loadLocked → (Lock.new a.req).matches req = false) ∧
        ∀ b, a.req.contextId ≠ req.contextId → a.req.paddr ≤ b → b < a.req.paddr + a.req.size →
          ll.paddr ≤ b → b < ll.paddr + ll.size → ∃ w, a.cmd = .swap w := by
  obtain ⟨l, hl, hm⟩ := List.any_eq_true.1 h
  obtain ⟨post, ll, pre, rfl, rfl, hpost⟩ := exists_loadLocked hl
  refine ⟨post, ll, pre, rfl, hm, fun a ha => ⟨fun hcmd => ?_, fun b hctx h1 h2 h3 h4 => ?_⟩⟩
  · rcases hpost a ha with ⟨w, hw⟩ | ⟨hne, -⟩ | hi
    · cases hw.symm.trans hcmd
    · exact absurd hcmd hne
    · -- two ranges around that of the store-conditional intersect
      refine decide_eq_false fun hm' => of_decide_eq_false hi ?_
      have := of_decide_eq_true hm
      have := req.pos
      simp only [Lock.new] at *
      omega
  · rcases hpost a ha with hw | ⟨-, hc⟩ | hi
    · exact hw
    · exact absurd (hc.trans (of_decide_eq_true hm).1) hctx
    · refine absurd ?_ (of_decide_eq_false hi)
      simp only [Lock.new]
      omega

/-- A load-locked, then a store of the same context to its range, one of another next to it and a
swap of the range: the store next to it has touched no locked byte. -/
theorem storeCond_atomic_store :
    let r (c a : Nat) : Request := ⟨c, a, 8, by decide⟩
    let older : List Access :=
      [⟨.swap true, r 1 0⟩, ⟨.store, r 1 8⟩, ⟨.store, r 0 0⟩, ⟨.loadLocked, r 0 0⟩]
    ∃ post ll pre, older = post ++ ⟨.loadLocked, ll⟩ :: pre ∧
      (Lock.new ll).matches (r 0 0) = true ∧ ⟨.store, r 1 8⟩ ∈ post ∧
      ∀ b, 8 ≤ b → b < 16 → ll.paddr ≤ b → ¬ b < ll.paddr + ll.size := by
  intro r older
  obtain ⟨post, ll, pre, h, hm, hpost⟩ := storeCond_atomic older (r 0 0) (by decide)
  have hstore : ⟨.store, r 1 8⟩ ∈ post := by
    rcases post with _ | ⟨a, _ | ⟨b, post⟩⟩
    · simp [older] at h
    · simp [older] at h
    · obtain ⟨-, hb⟩ := List.cons.inj h
      exact (List.cons.inj hb).1 ▸ .tail _ (.head _)
  refine ⟨post, ll, pre, h, hm, hstore, fun b h₁ h₂ h₃ h₄ => ?_⟩
  obtain ⟨w, hw⟩ := (hpost _ hstore).2 b (by decide) h₁ h₂ h₃ h₄
  cases hw

end Gem5Cxl.L3.BlockLocks
