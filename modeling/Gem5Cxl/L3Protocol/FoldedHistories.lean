import Gem5Cxl.L2Machine.Tage

/-!
# TAGE's folded histories are folds of the global history

Beside the histories a thread has the branches in flight, youngest first, with what was saved
for each, and the true outcomes, most recent first: a squash to a branch drops the outcomes of
the younger branches and replaces its own. Before the first branch all outcomes are 0.

* At most `histBufferSize - 2 * maxHist - 1` branches are in flight.
* Branches leave in order; without speculative updates that is when the histories change.

**Result.** `folded_histories`: if the size of the buffer less `maxHist` fits in an `int` and no
table's history is longer than `maxHist`, then in every state that a run reaches each folded
history is the fold of the true outcomes, and the last `maxHist` of them can be read at
`gHist`; no access is outside of the buffer. `rollover_out_of_bounds` is the first prediction
with a larger buffer.

**Why.** A branch's outcome is at an index below `histBufferSize - maxHist`, and going back one
branch moves the index up by one, or from the last to 0. So the `maxHist + 1` outcomes from an
in-flight branch on are not reached by what a younger branch writes, the copy of a rollover
included (`Slot.clear`).
-/
namespace Gem5Cxl.L3.BranchHistory

open Core Core.Folded L1 L2.Tage Function TAGEBase List

structure Thread where
  tHist : ThreadHistory
  /-- Youngest first. -/
  inFlight : List BranchInfo := []
  /-- Most recent first. -/
  outcomes : List Bool := []

abbrev Sys := Nat → Thread

inductive Act
  /-- mirrors cpu/pred/tage.cc:128-141 -/
  | predict (pc : Nat) (taken : Bool)
  /-- To the `k`-th youngest branch in flight. mirrors cpu/pred/tage.cc:79-84 -/
  | squash (k : Nat) (taken : Bool)
  /-- The oldest branch in flight leaves. mirrors cpu/pred/tage.cc:86-98 -/
  | commit (pc : Nat) (taken : Bool)

structure Ev where
  tid : Nat
  act : Act

variable (cfg : TAGEBase) {i j x : Nat} {tab' : Nat → Bool} {t : ThreadHistory} {α : Type}

def Thread.step (t : Thread) : Act → Except Fault Thread
  | .predict pc taken => do
    let (tHist, bi) ← cfg.updateHistories t.tHist pc taken {} true
    let outcomes := if cfg.speculativeHistUpdate then taken :: t.outcomes else t.outcomes
    return { tHist, inFlight := bi :: t.inFlight, outcomes }
  | .squash k taken => do
    let bi := t.inFlight.getD k {}
    let tHist ← cfg.squash t.tHist taken bi
    let outcomes := if cfg.speculativeHistUpdate then taken :: t.outcomes.drop (k + 1) else t.outcomes
    return { tHist, inFlight := t.inFlight.drop k, outcomes }
  | .commit pc taken => do
    let bi := t.inFlight.getLastD {}
    let (tHist, _) ← cfg.updateHistories t.tHist pc taken bi false
    let outcomes := if cfg.speculativeHistUpdate then t.outcomes else taken :: t.outcomes
    return { tHist, inFlight := t.inFlight.dropLast, outcomes }

def step (s : Sys) (e : Ev) : Except Fault Sys := do
  return Function.update s e.tid (← (s e.tid).step cfg e.act)

def Thread.enabled (t : Thread) : Act → Prop
  | .predict _ _ => t.inFlight.length < cfg.histBufferSize - 2 * cfg.maxHist - 1
  | .squash k _ => k < t.inFlight.length
  | .commit _ _ => t.inFlight ≠ []

def machine : Machine Sys Ev Fault where
  init s := s = fun _ => { tHist := cfg.initHistory }
  enabled s e := (s e.tid).enabled cfg e.act
  step := step cfg

/-- The configurations. The size is an `unsigned`. -/
structure Valid : Prop where
  buffer : 2 * cfg.maxHist < cfg.histBufferSize
  unsigned : cfg.histBufferSize < 2 ^ 32
  widths : ∀ r, ∀ i ∈ cfg.tables, 1 ≤ cfg.width r i ∧ cfg.width r i ≤ 31

/-- The pointer fits in an `int`, and `maxHist` is the longest history. -/
structure Fits : Prop where
  pointer : cfg.histBufferSize - cfg.maxHist < 2 ^ 31
  lengths : ∀ i ∈ cfg.tables, cfg.histLengths i ≤ cfg.maxHist

/-- The `j`-th most recent outcome. -/
def outcome (os : List Bool) (j : Nat) : Bool := os.getD j false

/-- What the histories of a thread are to be. -/
structure Faithful (t : Thread) : Prop where
  folded : ∀ r, ∀ i ∈ cfg.tables,
    (t.tHist.folded r i).comp = fold 32 (outcome t.outcomes) (cfg.width r i) (cfg.histLengths i)
  readable : ∀ j, j < cfg.maxHist →
    cfg.read t.tHist.globalHistory (t.tHist.gHist + j) = .ok (outcome t.outcomes j)

variable {cfg} {os : List Bool} {tab : Nat → Bool} {p q k : Nat} {b : Bool}

theorem push_outcome : push b (outcome os) = outcome (b :: os) := by
  funext j
  cases j with
  | zero => rfl
  | succ j => rfl

theorem outcome_drop (k j : Nat) : outcome (os.drop k) j = outcome os (k + j) := by
  simp [outcome]

/-! ## The buffer -/

/-- The indices of the outcomes are below this. -/
def span (cfg : TAGEBase) : Nat := cfg.histBufferSize - cfg.maxHist

/-- The outcomes are at `p` and above. -/
def Window (cfg : TAGEBase) (tab : Nat → Bool) (p : Nat) (os : List Bool) : Prop :=
  ∀ j, j ≤ cfg.maxHist → tab (p + j) = outcome os j

/-- `p'` is `k` branches before `p`. -/
def Slot (cfg : TAGEBase) (p k p' : Nat) : Prop :=
  p' < span cfg ∧ (p' = p + k ∨ p' + span cfg = p + k)

/-- What a write at `q` leaves alone: at the last index, it comes with a copy to the end of
the buffer. -/
def Untouched (cfg : TAGEBase) (q : Nat) (tab tab' : Nat → Bool) : Prop :=
  ∀ x, x ≠ q → (x < span cfg ∨ q + 1 < span cfg) → tab' x = tab x

theorem read_ok (hx : x < cfg.histBufferSize) : cfg.read tab x = .ok (tab x) := by
  rw [TAGEBase.read, if_pos ⟨Int.natCast_nonneg x, Int.ofNat_lt.2 hx⟩, Int.toNat_natCast]

theorem write_ok (hx : x < cfg.histBufferSize) : cfg.write tab x b = .ok (update tab x b) := by
  rw [write, if_pos ⟨Int.natCast_nonneg x, Int.ofNat_lt.2 hx⟩, Int.toNat_natCast]

theorem Window.read (h : Window cfg tab p os) (hp : p < span cfg) (hj : j ≤ cfg.maxHist) :
    cfg.read tab ((p : Int) + j) = .ok (outcome os j) := by
  have hlt : p + j < cfg.histBufferSize := by
    unfold span at hp
    omega
  rw [← Int.natCast_add, read_ok hlt, h j hj]

variable {p' : Nat} {l : List Nat} {bi : BranchInfo}

theorem Slot.clear (h : Slot cfg q k p') (hk : 0 < k) (hroom : k + cfg.maxHist + 2 ≤ span cfg)
    (hq : q < span cfg)
    (hj : j ≤ cfg.maxHist) : p' + j ≠ q ∧ (p' + j < span cfg ∨ q + 1 < span cfg) := by
  unfold Slot at h
  omega

theorem Window.untouched (h : Window cfg tab p' os) (hs : Slot cfg q k p')
    (hk : 0 < k) (hroom : k + cfg.maxHist + 2 ≤ span cfg) (hq : q < span cfg)
    (hu : Untouched cfg q tab tab') :
    Window cfg tab' p' os := by
  intro j hj
  obtain ⟨hne, hlt⟩ := hs.clear hk hroom hq hj
  rw [hu _ hne hlt, h j hj]

/-- The first `n` steps of the copy. -/
theorem copyBack_loop (hv : Valid cfg) (n : Nat) (hn : n ≤ cfg.maxHist) :
    (List.range n).foldlM (fun tab (i : Nat) => do
      cfg.write tab (cfg.histBufferSize - cfg.maxHist + i : Nat) (← cfg.read tab i)) tab =
    .ok fun x => if span cfg ≤ x ∧ x < span cfg + n then tab (x - span cfg) else tab x := by
  have hbuf := hv.buffer
  induction n with
  | zero =>
    have hnone : ∀ x, ¬ (span cfg ≤ x ∧ x < span cfg + 0) := fun x => by omega
    simp only [range_zero, foldlM_nil, if_neg (hnone _)]
    rfl
  | succ n ih =>
    rw [range_succ, foldlM_append, ih (by omega), ok_bind, foldlM_cons, read_ok (by omega), ok_bind,
      write_ok (by omega), ok_bind, foldlM_nil]
    refine congrArg Except.ok (funext fun x => ?_)
    have hlow : ¬ (span cfg ≤ n ∧ n < span cfg + n) := by
      unfold span
      omega
    change update _ (span cfg + n) _ x = _
    by_cases hx : x = span cfg + n
    · subst hx
      rw [update_self, if_neg hlow, if_pos ⟨by omega, by omega⟩, Nat.add_sub_cancel_left]
    · rw [update_of_ne hx]
      by_cases hin : span cfg ≤ x ∧ x < span cfg + n
      · rw [if_pos hin, if_pos ⟨hin.1, by omega⟩]
      · rw [if_neg hin, if_neg (by omega)]

theorem toInt_span (hf : Fits cfg) :
    toInt (cfg.histBufferSize - cfg.maxHist) = (span cfg : Int) := by
  have hlt := hf.pointer
  unfold toInt span
  generalize cfg.histBufferSize - cfg.maxHist = n at hlt
  rw [Int.bmod_eq_of_le]
  · omega
  · omega

/-- The outcome before the last one is one index up, or at 0. -/
def Before (cfg : TAGEBase) (p q : Nat) : Prop := q + 1 = p ∨ p = 0 ∧ q + 1 = span cfg

theorem updateGHist_ok (hv : Valid cfg) (hf : Fits cfg) (h : Window cfg tab p os)
    (hp : p < span cfg) (dir : Bool) :
    ∃ (q : Nat) (tab' : Nat → Bool),
      cfg.updateGHist p dir tab p = .ok ((q : Int), tab', (q : Int)) ∧ q < span cfg ∧
      Before cfg p q ∧ Window cfg tab' q (dir :: os) ∧ Untouched cfg q tab tab' := by
  have hspan : span cfg = cfg.histBufferSize - cfg.maxHist := rfl
  unfold updateGHist
  by_cases h0 : p = 0
  · subst h0
    have hpred : (span cfg : Int) - 1 = (span cfg - 1 : Nat) := by omega
    simp only [Int.natCast_zero, if_true, copyBack, copyBack_loop hv _ le_rfl, ok_bind, pure_bind, toInt_span hf, hpred]
    rw [write_ok (by omega)]
    refine ⟨span cfg - 1, _, rfl, by omega, .inr ⟨rfl, by omega⟩, fun j hj => ?_, fun x hx hlt => ?_⟩
    · cases j with
      | zero =>
        rw [add_zero, update_self]
        rfl
      | succ j =>
        -- the copied outcomes
        have hidx : span cfg - 1 + (j + 1) = span cfg + j := by omega
        rw [hidx, update_of_ne (by omega), if_pos ⟨by omega, by omega⟩, Nat.add_sub_cancel_left]
        have hwin := h j (by omega)
        rwa [zero_add] at hwin
    · rw [update_of_ne hx, if_neg (by omega)]
  · have hpred : (p : Int) - 1 = (p - 1 : Nat) := by omega
    have hne : (p : Int) ≠ 0 := by omega
    simp only [if_neg hne, pure_bind, hpred]
    rw [write_ok (by omega)]
    refine ⟨p - 1, _, rfl, by omega, .inl (by omega), fun j hj => ?_, fun x hx hlt => ?_⟩
    · cases j with
      | zero =>
        rw [add_zero, update_self]
        rfl
      | succ j =>
        have hidx : p - 1 + (j + 1) = p + j := by omega
        rw [hidx, update_of_ne (by omega), h j (by omega)]
        rfl
    · exact update_of_ne hx _ _

/-! ## The tables -/

def foldedAt (cfg : TAGEBase) (os : List Bool) (r : Register) (i : Nat) : FoldedHistory :=
  { FoldedHistory.init (cfg.histLengths i) (cfg.width r i) with
    comp := fold 32 (outcome os) (cfg.width r i) (cfg.histLengths i) }

/-- The entries of the tables `l` are replaced. -/
def setAll {α : Type} (l : List Nat) (new old : Register → Nat → α) (r : Register) (i : Nat) : α :=
  if i ∈ l then new r i else old r i

theorem setAll_nil (new old : Register → Nat → α) : setAll [] new old = old := by
  funext r i
  exact if_neg not_mem_nil

theorem setAll_cons (hi : i ∉ l) (new old : Register → Nat → α) :
    setAll l new (fun r => update (old r) i (new r i)) = setAll (i :: l) new old := by
  funext r j
  simp only [setAll]
  by_cases hj : j = i
  · subst hj
    rw [if_neg hi, if_pos mem_cons_self, update_self]
  · simp [hj]

structure Points (cfg : TAGEBase) (p : Nat) (os : List Bool) (t : ThreadHistory) : Prop where
  gHist : t.gHist = p
  lt : p < span cfg
  window : Window cfg t.globalHistory p os

theorem Points.setFolded (h : Points cfg p os t) (folded : Register → Nat → FoldedHistory) :
    Points cfg p os { t with folded } := { h with }

section

variable (hv : Valid cfg) (hf : Fits cfg) (h : Points cfg p (b :: os) t) (hi : i ∈ cfg.tables)
include hv hf h hi

theorem update_ok (r : Register) :
    (foldedAt cfg os r i).update (fun j : Nat => cfg.read t.globalHistory (t.gHist + j)) =
      .ok (foldedAt cfg (b :: os) r i) := by
  have hlen := hf.lengths i hi
  obtain ⟨hpos, hle⟩ := hv.widths r i hi
  have h0 := h.window.read h.lt (Nat.zero_le _)
  have hout := h.window.read h.lt hlen
  have hpush := fold_push (h := outcome os) (b := b) (w := 32) hpos (by omega) (cfg.histLengths i)
  rw [push_outcome] at hpush
  unfold FoldedHistory.update
  simp only [h.gHist, foldedAt, FoldedHistory.init, h0, hout, ok_bind, ← hpush]
  rfl

theorem updateTable_ok (hold : ∀ r, t.folded r i = foldedAt cfg os r i) :
    cfg.updateTable t i =
      .ok { t with folded := fun r => update (t.folded r) i (foldedAt cfg (b :: os) r i) } := by
  unfold updateTable
  simp only [hold, update_ok hv hf h hi, ok_bind]
  refine congrArg (fun f => Except.ok { t with folded := f }) (funext fun r => ?_)
  cases r with
  | computeIndices => rfl
  | computeTags0 => rfl
  | computeTags1 => rfl

end

theorem nodup_tables : cfg.tables.Nodup := nodup_range'

/-- The loop of `updateHistories`: the registers of the tables `l` take the outcome, and what they
were is saved. -/
theorem updateLoop_ok (hv : Valid cfg) (hf : Fits cfg) (speculative : Bool) (hl : l ⊆ cfg.tables)
    (hnd : l.Nodup)
    (bi : BranchInfo) (h : Points cfg p (b :: os) t)
    (hold : ∀ r, ∀ i ∈ l, t.folded r i = foldedAt cfg os r i) :
    l.foldlM (cfg.saveUpdate speculative) (t, bi) =
    .ok ({ t with folded := setAll l (foldedAt cfg (b :: os)) t.folded },
      if speculative then { bi with saved := setAll l (fun r i => (foldedAt cfg os r i).comp) bi.saved } else bi) := by
  induction l generalizing t bi with
  | nil =>
    simp only [foldlM_nil, setAll_nil, ite_self]
    rfl
  | cons i l ih =>
    obtain ⟨hil, hnd⟩ := nodup_cons.1 hnd
    have hi : ∀ r, t.folded r i = foldedAt cfg os r i := fun r => hold r i mem_cons_self
    rw [foldlM_cons, saveUpdate, updateTable_ok hv hf h (hl mem_cons_self) hi, ok_bind, pure_bind,
      ih (subset_of_cons_subset hl) hnd _ (h.setFolded _)]
    · cases speculative with
      | false =>
        simp only [setAll_cons hil, Bool.false_eq_true, if_false]
      | true =>
        simp only [saveTable, hi, if_true, setAll_cons hil]
    · intro r j hj
      have hne : j ≠ i := fun heq => hil (heq ▸ hj)
      simp only [update_of_ne hne]
      exact hold r j (mem_cons_of_mem _ hj)

/-- The loop of `squash`: the registers of the tables `l` are restored and take the outcome. -/
theorem restoreLoop_ok (hv : Valid cfg) (hf : Fits cfg) (hl : l ⊆ cfg.tables) (hnd : l.Nodup)
    (h : Points cfg p (b :: os) t) {os' : List Bool}
    (hold : ∀ r, ∀ i ∈ l, t.folded r i = foldedAt cfg os' r i)
    (hsaved : ∀ r, ∀ i ∈ l, bi.saved r i = (foldedAt cfg os r i).comp) :
    l.foldlM (cfg.restoreUpdate bi) t =
      .ok { t with folded := setAll l (foldedAt cfg (b :: os)) t.folded } := by
  induction l generalizing t with
  | nil =>
    rfl
  | cons i l ih =>
    obtain ⟨hil, hnd⟩ := nodup_cons.1 hnd
    have hrestored : ∀ r, (restoreTable t bi i).folded r i = foldedAt cfg os r i := by
      intro r
      simp only [restoreTable, update_self, hold r i mem_cons_self,
        hsaved r i mem_cons_self]
      rfl
    have hpoints : Points cfg p (b :: os) (restoreTable t bi i) := h.setFolded _
    rw [foldlM_cons, restoreUpdate, updateTable_ok hv hf hpoints (hl mem_cons_self) hrestored, ok_bind,
      ih (subset_of_cons_subset hl) hnd (hpoints.setFolded _) _ fun r j hj => hsaved r j (mem_cons_of_mem _ hj)]
    · simp only [restoreTable, update_idem, setAll_cons hil]
    · intro r j hj
      have hne : j ≠ i := fun heq => hil (heq ▸ hj)
      simp only [restoreTable, update_of_ne hne]
      exact hold r j (mem_cons_of_mem _ hj)

/-! ## The invariant -/

/-- The histories of a thread whose pointer is `p`. -/
structure Current (cfg : TAGEBase) (p : Nat) (os : List Bool) (t : ThreadHistory) : Prop
    extends Points cfg p os t where
  ptGhist : t.ptGhist = p
  folded : ∀ r, ∀ i ∈ cfg.tables, t.folded r i = foldedAt cfg os r i

/-- What was saved for the `k`-th youngest branch. -/
structure Saved (cfg : TAGEBase) (tab : Nat → Bool) (p : Nat) (os : List Bool) (k : Nat)
    (bi : BranchInfo) (p' : Nat) :
    Prop where
  ptGhist : bi.ptGhist = p'
  slot : Slot cfg p k p'
  window : Window cfg tab p' (os.drop k)
  saved : ∀ r, ∀ i ∈ cfg.tables, bi.saved r i = (foldedAt cfg (os.drop (k + 1)) r i).comp

/-- Every branch in flight can be squashed to. -/
def InFlight (cfg : TAGEBase) (tab : Nat → Bool) (p : Nat) (os : List Bool)
    (inFlight : List BranchInfo) : Prop :=
  ∀ k bi, inFlight[k]? = some bi → ∃ p', Saved cfg tab p os k bi p'

structure Inv (cfg : TAGEBase) (t : Thread) : Prop where
  room : t.inFlight.length ≤ cfg.histBufferSize - 2 * cfg.maxHist - 1
  histories : ∃ p, Current cfg p t.outcomes t.tHist ∧
    (cfg.speculativeHistUpdate = true → InFlight cfg t.tHist.globalHistory p t.outcomes t.inFlight)

theorem Current.faithful {t : Thread} (h : Current cfg p t.outcomes t.tHist) : Faithful cfg t := by
  refine ⟨fun r i hi => ?_, fun j hj => ?_⟩
  · rw [h.folded r i hi]
    rfl
  · rw [h.gHist, h.window.read h.lt (le_of_lt hj)]

theorem setAll_mem (hi : i ∈ l) (new old : Register → Nat → α) (r : Register) :
    setAll l new old r i = new r i := if_pos hi

theorem updateHistories_ok (hv : Valid cfg) (hf : Fits cfg) (h : Current cfg p os t) (pc : Nat)
    (taken : Bool) (bi : BranchInfo) :
    ∃ (q : Nat) (t' : ThreadHistory) (bi' : BranchInfo),
      cfg.updateHistories t pc taken bi cfg.speculativeHistUpdate = .ok (t', bi') ∧ Before cfg p q ∧
      Current cfg q (taken :: os) t' ∧ Untouched cfg q t.globalHistory t'.globalHistory ∧
      (cfg.speculativeHistUpdate = true → bi'.ptGhist = q ∧
        ∀ r, ∀ i ∈ cfg.tables, bi'.saved r i = (foldedAt cfg os r i).comp) := by
  obtain ⟨q, tab, hupdate, hq, hbefore, hwin, hfree⟩ := updateGHist_ok hv hf h.window h.lt taken
  unfold updateHistories
  simp only [ne_eq, not_true_eq_false, if_false, h.gHist, h.ptGhist, hupdate, ok_bind]
  rw [updateLoop_ok (t := ⟨_, tab, q, q, t.folded⟩) hv hf _ (.refl _) nodup_tables _ ⟨rfl, hq, hwin⟩ h.folded,
    ok_bind]
  simp only [not_true_eq_false, if_false]
  refine ⟨q, _, _, rfl, hbefore, ⟨⟨rfl, hq, hwin⟩, rfl, fun r i hi => setAll_mem hi _ _ r⟩, hfree, fun hs => ?_⟩
  simp only [hs, if_true]
  exact ⟨trivial, fun r i hi => setAll_mem hi _ _ r⟩

theorem updateHistories_other {speculative : Bool} (h : speculative ≠ cfg.speculativeHistUpdate)
    (t : ThreadHistory)
    (pc : Nat) (taken : Bool) (bi : BranchInfo) :
    cfg.updateHistories t pc taken bi speculative = .ok (t, bi) :=
  if_pos h

theorem Saved.push (h : Saved cfg tab p os k bi p')
    (hbefore : Before cfg p q) (hq : q < span cfg) (hroom : k + 1 + cfg.maxHist + 2 ≤ span cfg)
    (hu : Untouched cfg q tab tab') : Saved cfg tab' q (b :: os) (k + 1) bi p' := by
  have hslot : Slot cfg q (k + 1) p' := by
    have hs := h.slot
    unfold Slot at hs ⊢
    unfold Before at hbefore
    omega
  exact ⟨h.ptGhist, hslot, h.window.untouched hslot (Nat.succ_pos k) hroom hq hu, h.saved⟩

theorem Inv.predict (hv : Valid cfg) (hf : Fits cfg) {t : Thread} (h : Inv cfg t) (pc : Nat)
    (taken : Bool) (hroom : t.inFlight.length < cfg.histBufferSize - 2 * cfg.maxHist - 1) :
    ∃ t', t.step cfg (.predict pc taken) = .ok t' ∧ Inv cfg t' := by
  obtain ⟨p, hcur, hflight⟩ := h.histories
  by_cases hs : cfg.speculativeHistUpdate = true
  · obtain ⟨q, t', bi', hupdate, hbefore, hcur', hfree, hbi⟩ := updateHistories_ok hv hf hcur pc taken {}
    obtain ⟨hpt, hsaved⟩ := hbi hs
    rw [hs] at hupdate
    simp only [Thread.step, hupdate, ok_bind, hs, if_true]
    refine ⟨_, rfl, ⟨hroom, q, hcur', fun _ k bi hk => ?_⟩⟩
    cases k with
    | zero =>
      cases hk
      exact ⟨q, hpt, ⟨hcur'.lt, .inl rfl⟩, hcur'.window, hsaved⟩
    | succ k =>
      obtain ⟨p', hold⟩ := hflight hs k bi hk
      have hlen : k < t.inFlight.length := Nat.lt_of_succ_lt_succ (List.getElem?_eq_some_iff.1 hk).1
      have hspan : k + 1 + cfg.maxHist + 2 ≤ span cfg := by
        unfold span
        omega
      exact ⟨p', hold.push hbefore hcur'.lt hspan hfree⟩
  · have hother : true ≠ cfg.speculativeHistUpdate := fun heq => hs heq.symm
    simp only [Thread.step, updateHistories_other hother, ok_bind, if_neg hs]
    exact ⟨_, rfl, ⟨hroom, p, hcur, fun hs' => absurd hs' hs⟩⟩

theorem Inv.commit (hv : Valid cfg) (hf : Fits cfg) {t : Thread} (h : Inv cfg t) (pc : Nat)
    (taken : Bool) :
    ∃ t', t.step cfg (.commit pc taken) = .ok t' ∧ Inv cfg t' := by
  obtain ⟨p, hcur, hflight⟩ := h.histories
  have hroom : t.inFlight.dropLast.length ≤ cfg.histBufferSize - 2 * cfg.maxHist - 1 := by
    have := h.room
    rw [length_dropLast]
    omega
  by_cases hs : cfg.speculativeHistUpdate = true
  · have hother : false ≠ cfg.speculativeHistUpdate := by rw [hs]; exact Bool.false_ne_true
    simp only [Thread.step, updateHistories_other hother, ok_bind, hs, if_true]
    refine ⟨_, rfl, ⟨hroom, p, hcur, fun _ k bi hk => hflight hs k bi ?_⟩⟩
    rw [getElem?_dropLast] at hk
    split at hk
    · exact hk
    · cases hk
  · obtain ⟨q, t', bi', hupdate, -, hcur', -⟩ := updateHistories_ok hv hf hcur pc taken (t.inFlight.getLastD {})
    rw [Bool.eq_false_iff.2 hs] at hupdate
    simp only [Thread.step, hupdate, ok_bind, if_neg hs]
    exact ⟨_, rfl, ⟨hroom, q, hcur', fun hs' => absurd hs' hs⟩⟩

theorem Window.correct (h : Window cfg tab p' (os.drop k)) (taken : Bool) :
    Window cfg (update tab p' taken) p' (taken :: os.drop (k + 1)) := by
  intro j hj
  cases j with
  | zero =>
    rw [add_zero, update_self]
    rfl
  | succ j =>
    rw [update_of_ne (by omega), h _ hj]
    change _ = outcome (os.drop (k + 1)) j
    rw [outcome_drop, outcome_drop, add_assoc, add_comm 1 j]

theorem untouched_update (taken : Bool) : Untouched cfg q tab (update tab q taken) :=
  fun _ hx _ => update_of_ne hx _ _

theorem squash_ok (hv : Valid cfg) (hf : Fits cfg) (hs : cfg.speculativeHistUpdate = true)
    (h : Current cfg p os t) (hsaved : Saved cfg t.globalHistory p os k bi p') (taken : Bool) :
    ∃ t', cfg.squash t taken bi = .ok t' ∧ Current cfg p' (taken :: os.drop (k + 1)) t' ∧
      t'.globalHistory = update t.globalHistory p' taken := by
  have hlt : p' < cfg.histBufferSize := by
    have := hsaved.slot.1
    unfold span at this
    omega
  have hwin := hsaved.window.correct taken
  unfold TAGEBase.squash
  simp only [hs, hsaved.ptGhist, write_ok hlt, ok_bind]
  rw [restoreLoop_ok (t := ⟨bi.pathHist, update t.globalHistory p' taken, p', p', t.folded⟩) hv hf
    (.refl _) nodup_tables ⟨rfl, hsaved.slot.1, hwin⟩ h.folded hsaved.saved]
  exact ⟨_, rfl, ⟨⟨rfl, hsaved.slot.1, hwin⟩, rfl, fun r i hi => setAll_mem hi _ _ r⟩, rfl⟩

theorem Saved.squash {m p'' : Nat} (h : Saved cfg tab p os (k + (m + 1)) bi p'')
    (hslot : Slot cfg p k p') (hroom : m + 1 + cfg.maxHist + 2 ≤ span cfg) (taken : Bool) :
    Saved cfg (update tab p' taken) p' (taken :: os.drop (k + 1)) (m + 1) bi p'' := by
  have hslot' : Slot cfg p' (m + 1) p'' := by
    have hs := h.slot
    unfold Slot at hs hslot ⊢
    omega
  have hdrop : ∀ n, (taken :: os.drop (k + 1)).drop (n + 1) = os.drop (k + (n + 1)) := by
    intro n
    rw [drop_succ_cons, drop_drop, add_assoc, add_comm 1 n]
  refine ⟨h.ptGhist, hslot', ?_, ?_⟩
  · rw [hdrop]
    exact h.window.untouched hslot' (Nat.succ_pos m) hroom hslot.1 (untouched_update taken)
  · rw [hdrop]
    exact h.saved

theorem Inv.squash (hv : Valid cfg) (hf : Fits cfg) {t : Thread} (h : Inv cfg t) (taken : Bool)
    (hk : k < t.inFlight.length) : ∃ t', t.step cfg (.squash k taken) = .ok t' ∧ Inv cfg t' := by
  obtain ⟨p, hcur, hflight⟩ := h.histories
  have hlen := h.room
  have hroom : (t.inFlight.drop k).length ≤ cfg.histBufferSize - 2 * cfg.maxHist - 1 := by
    rw [length_drop]
    omega
  by_cases hs : cfg.speculativeHistUpdate = true
  · obtain ⟨bi, hbi⟩ : ∃ bi, t.inFlight[k]? = some bi := ⟨_, getElem?_eq_getElem hk⟩
    have hget : t.inFlight.getD k {} = bi := by rw [getD_eq_getElem?_getD, hbi, Option.getD_some]
    obtain ⟨p', hsaved⟩ := hflight hs k bi hbi
    obtain ⟨t', hsquash, hcur', htab⟩ := squash_ok hv hf hs hcur hsaved taken
    simp only [Thread.step, hget, hsquash, ok_bind, hs, if_true]
    refine ⟨_, rfl, ⟨hroom, p', hcur', fun _ m bi' hm => ?_⟩⟩
    rw [getElem?_drop] at hm
    simp only [htab]
    cases m with
    | zero =>
      rw [add_zero, hbi] at hm
      cases hm
      exact ⟨p', hsaved.ptGhist, ⟨hsaved.slot.1, .inl rfl⟩, hsaved.window.correct taken, hsaved.saved⟩
    | succ m =>
      obtain ⟨p'', hold⟩ := hflight hs _ bi' hm
      have hlt : k + (m + 1) < t.inFlight.length := (List.getElem?_eq_some_iff.1 hm).1
      have hspan : m + 1 + cfg.maxHist + 2 ≤ span cfg := by
        unfold span
        omega
      exact ⟨p'', hold.squash hsaved.slot hspan taken⟩
  · have hnone : cfg.squash t.tHist taken (t.inFlight.getD k {}) = .ok t.tHist := by
      rw [TAGEBase.squash, Bool.eq_false_iff.2 hs]
      rfl
    simp only [Thread.step, hnone, ok_bind, if_neg hs]
    exact ⟨_, rfl, ⟨hroom, p, hcur, fun hs' => absurd hs' hs⟩⟩

theorem Inv.step (hv : Valid cfg) (hf : Fits cfg) {t : Thread} (h : Inv cfg t) {a : Act}
    (hen : t.enabled cfg a) :
    ∃ t', t.step cfg a = .ok t' ∧ Inv cfg t' := by
  cases a with
  | predict pc taken => exact h.predict hv hf pc taken hen
  | squash k taken => exact h.squash hv hf taken hen
  | commit pc taken => exact h.commit hv hf pc taken

theorem fold_zero (c n : Nat) : fold 32 (outcome []) c n = 0#32 := by
  induction n with
  | zero => rfl
  | succ n ih => simp [fold, ih, outcome, bit]

theorem Inv.init (hv : Valid cfg) : Inv cfg { tHist := cfg.initHistory } := by
  refine ⟨Nat.zero_le _, 0, ⟨⟨rfl, ?_, fun j _ => rfl⟩, rfl, fun r i _ => ?_⟩, fun _ k bi hk => ?_⟩
  · have := hv.buffer
    unfold span
    omega
  · rw [foldedAt, fold_zero]
    rfl
  · exact (nomatch hk)

/-- **Folded histories.** Where the pointer fits in an `int` and no history is longer than
`maxHist`, no call faults, the folded histories of every thread are the folds of its true
outcomes, and the last `maxHist` outcomes are readable at `gHist`. -/
theorem folded_histories (hv : Valid cfg) (hf : Fits cfg) {x : Except Fault Sys}
    (hr : (machine cfg).lts.Reachable x) : ∃ s, x = .ok s ∧ ∀ tid, Faithful cfg (s tid) := by
  obtain ⟨s, hx, hinv⟩ := Machine.total (I := fun s => ∀ tid, Inv cfg (s tid))
    (fun s hs tid => by cases hs; exact .init hv)
    (fun s e h hen _ => by
      obtain ⟨t', hstep, hinv'⟩ := (h e.tid).step hv hf hen
      refine ⟨update s e.tid t', bind_eq_ok.2 ⟨t', hstep, rfl⟩, fun tid => ?_⟩
      by_cases htid : tid = e.tid
      · subst htid
        rw [update_self]
        exact hinv'
      · rw [update_of_ne htid]
        exact h tid)
    (Machine.unguarded hr)
  refine ⟨s, hx, fun tid => ?_⟩
  obtain ⟨p, hcur, -⟩ := (hinv tid).histories
  exact hcur.faithful

instance (t : Thread) (a : Act) : Decidable (t.enabled cfg a) :=
  match a, t.inFlight with
  | .predict _ _, _ => inferInstanceAs (Decidable (_ < _))
  | .squash _ _, _ => inferInstanceAs (Decidable (_ < _))
  | .commit _ _, _ => decidable_of_iff (t.inFlight.length ≠ 0) (by simp [Thread.enabled])

instance (s : Sys) (e : Ev) : Decidable ((machine cfg).enabled s e) :=
  inferInstanceAs (Decidable ((s e.tid).enabled cfg e.act))

def oneTable (histBufferSize maxHist : Nat) : TAGEBase where
  nHistoryTables := 1
  histBufferSize
  maxHist
  histLengths _ := maxHist
  logTagTableSizes _ := 2
  tagTableTagWidths _ := 3

theorem oneTable_valid {histBufferSize maxHist : Nat} (h : 2 * maxHist < histBufferSize)
    (hlt : histBufferSize < 2 ^ 32) :
    Valid (oneTable histBufferSize maxHist) := by
  refine ⟨h, hlt, fun r i _ => ?_⟩
  cases r with
  | computeIndices => exact (by decide : 1 ≤ 2 ∧ 2 ≤ 31)
  | computeTags0 => exact (by decide : 1 ≤ 3 ∧ 3 ≤ 31)
  | computeTags1 => exact (by decide : 1 ≤ 2 ∧ 2 ≤ 31)

/-- A buffer of ten with histories of three: the sixth branch makes the pointer roll over,
and a squash goes back to the branch before it. -/
theorem folded_histories_rollover : ∃ s, (machine (oneTable 10 3)).lts.Reachable (.ok s) ∧
    (s 0).outcomes = [true, false, false, true, true, false, true] ∧ (s 0).tHist.ptGhist = 0 ∧
    ∃ s', (Except.ok s : Except Fault Sys) = .ok s' ∧ ∀ tid, Faithful (oneTable 10 3) (s' tid) := by
  have hr := Machine.lts_decided (M := machine (oneTable 10 3)) (fun _ _ => id)
      [⟨0, .predict 0 true⟩, ⟨0, .commit 0 true⟩, ⟨0, .predict 4 false⟩, ⟨0, .predict 8 true⟩, ⟨1, .predict 8 true⟩,
        ⟨0, .commit 4 false⟩, ⟨0, .predict 4 true⟩, ⟨0, .commit 8 true⟩, ⟨0, .predict 4 false⟩, ⟨0, .commit 4 true⟩,
        ⟨0, .predict 4 false⟩, ⟨0, .commit 4 false⟩, ⟨0, .predict 4 false⟩, ⟨0, .commit 4 false⟩, ⟨0, .predict 4 true⟩,
        ⟨0, .squash 1 true⟩] rfl rfl
  exact ⟨_, hr, rfl, rfl, folded_histories (oneTable_valid (by decide) (by decide))
    ⟨by decide, fun _ _ => le_rfl⟩ hr⟩

/-- **Out of bounds.** With a buffer of 2^31 + 2 outcomes the first prediction writes
outside of it. -/
theorem rollover_out_of_bounds : Valid (oneTable (2 ^ 31 + 2) 1) ∧
    (machine (oneTable (2 ^ 31 + 2) 1)).lts.Reachable (.error .outOfBounds) :=
  ⟨oneTable_valid (by decide) (by decide),
    Machine.lts_decided (fun _ _ => id)
      [⟨0, .predict 0 true⟩] rfl rfl⟩

end Gem5Cxl.L3.BranchHistory
