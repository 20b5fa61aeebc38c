import Gem5Cxl.L2Machine.ConfigSpace

/-!
# Advertised ranges against routing

The upstream slave port of the root complex tells the host crossbar which
addresses it serves (`fillRanges` of the three root ports); `getMasterPort`
then picks the port each request leaves by. They agree at an address `a` when
a request for `a` leaves by the port on whose behalf `a` was advertised, and by
the DMA port when `a` was neither advertised nor reported by a downstream peer.

The decoders disagree on *stray* windows (`Window.Stray`): windows with nonzero
registers that `fillRanges` leaves out because base and limit have not both been
written, or because their last address is `2^64 - 1` and the range wraps to an
empty one. `getMasterPort` serves them all the same. Every port has one from the
start: the I/O registers come up as `[0x2f000000, 0x2f000fff]`. The other
difference is the BARs, which are advertised but never decoded.

* `mem_getAddrRanges`: what the upstream slave port advertises.
* `getMasterPort_root`, `getMasterPort_dma`: the first-match search as a
  specification.
* `agree_iff`: for every configuration whose ports advertise disjoint ranges,
  the exact condition on windows, BARs and peer ranges under which the decoders
  agree at an address.
* `io_window_misrouted`: one config write to root port 2 suffices to break them.
* `downstream_not_complement`: what the downstream slave port of a root port serves, which is
  never the complement of its ranges.
-/
namespace Gem5Cxl.L3.RangeRouting

open L1 L2.ConfigSpace List

/-! ## What each decoder says of an address -/

/-- `a` lies in a range advertised on behalf of root port `k`. -/
def Advertised (d : Decoder) (k : RootPort) (a : Nat) : Prop :=
  ∃ r ∈ fillRanges (d.port k), r.contains a = true

/-- `a` lies in a range that the peer of root port `k` reports. -/
def Reported (d : Decoder) (k : RootPort) (a : Nat) : Prop :=
  ∃ r ∈ d.peer k, r.contains a = true

/-- No address is advertised on behalf of two ports. -/
def Disjoint (d : Decoder) : Prop := ∀ j k a, Advertised d j a → Advertised d k a → j = k

/-- The two decoders agree at `a`. -/
def Agree (d : Decoder) (a : Nat) : Prop :=
  (∀ k, Advertised d k a → getMasterPort d a = .root k) ∧
    ((∀ k, ¬ Advertised d k a) → (∀ k, ¬ Reported d k a) → getMasterPort d a = .dma)

/-! ## Windows and BARs -/

/-- `a` lies in the window, the window is advertised and its range does not wrap. -/
def Shown (w : Window) (a : Nat) : Prop :=
  w.base ≤ a ∧ a ≤ w.limit ∧ w.declared = true ∧ w.limit ≠ 2 ^ 64 - 1

/-- `a` lies in the window and its base register is set, but the window is not
advertised, or its range wraps. -/
def Stray (w : Window) (a : Nat) : Prop :=
  w.base ≤ a ∧ a ≤ w.limit ∧ w.base ≠ 0 ∧ (w.declared = false ∨ w.limit = 2 ^ 64 - 1)

def InShown (d : Decoder) (k : RootPort) (a : Nat) : Prop := ∃ w ∈ windows (d.port k), Shown w a

def InStray (d : Decoder) (k : RootPort) (a : Nat) : Prop := ∃ w ∈ windows (d.port k), Stray w a

def InBar (d : Decoder) (k : RootPort) (a : Nat) : Prop :=
  ∃ r ∈ barRanges (d.port k), r.contains a = true

variable {c : ConfigClass} {w : Window} (d : Decoder)

theorem windows_limit_lt (h : w ∈ windows c) : w.limit < 2 ^ 64 := by
  have small : ∀ x : UInt32, x.toNat < 2 ^ 64 := fun x => by
    have := x.toNat_lt
    omega
  simp only [windows, mem_cons, not_mem_nil, or_false] at h
  rcases h with rfl | rfl | rfl
  · exact small _
  · exact UInt64.toNat_lt _
  · exact small _

/-- `getMasterPort` finds `a` in a window iff the window shows it or strays over it. -/
theorem window_decodes (w : Window) (a : Nat) : w.decodes a = true ↔ Shown w a ∨ Stray w a := by
  rw [Window.decodes_iff]
  unfold Shown Stray
  constructor
  · rintro ⟨h1, h2, h3, -⟩
    by_cases hl : w.limit = 2 ^ 64 - 1
    · exact .inr ⟨h1, h2, h3, .inr hl⟩
    · cases hd : w.declared with
      | true => exact .inl ⟨h1, h2, rfl, hl⟩
      | false => exact .inr ⟨h1, h2, h3, .inl rfl⟩
  · rintro (⟨h1, h2, h3, -⟩ | ⟨h1, h2, h3, -⟩)
    · have hb := ((Window.declared_iff w).mp h3).2.2
      refine ⟨h1, h2, hb, ?_⟩
      omega
    · refine ⟨h1, h2, h3, ?_⟩
      omega

/-- The range `fillRanges` makes of a window contains `a` iff the window shows it. -/
theorem rangeIn_contains (hw : w ∈ windows c) (a : Nat) :
    w.declared = true ∧ (rangeIn w.base w.limit).contains a = true ↔ Shown w a := by
  have hlt := windows_limit_lt hw
  rw [AddrRange.contains_iff]
  unfold Shown rangeIn
  by_cases hmax : w.limit = 2 ^ 64 - 1
  · rw [hmax]
    simp
  · have hm : (w.limit + 1) % 2 ^ 64 = w.limit + 1 := Nat.mod_eq_of_lt (by omega)
    simp only [hm]
    constructor
    · rintro ⟨hd, h1, h2⟩
      exact ⟨h1, Nat.lt_succ_iff.mp h2, hd, hmax⟩
    · rintro ⟨h1, h2, hd, -⟩
      exact ⟨hd, h1, Nat.lt_succ_iff.mpr h2⟩

theorem advertised_iff (k : RootPort) (a : Nat) :
    Advertised d k a ↔ InBar d k a ∨ InShown d k a := by
  constructor
  · rintro ⟨r, hr, hc⟩
    rcases mem_append.mp hr with hr | hr
    · exact .inl ⟨r, hr, hc⟩
    · obtain ⟨w, hw, rfl⟩ := mem_map.mp hr
      obtain ⟨hw, hd⟩ := mem_filter.mp hw
      exact .inr ⟨w, hw, (rangeIn_contains hw a).mp ⟨hd, hc⟩⟩
  · rintro (⟨r, hr, hc⟩ | ⟨w, hw, hs⟩)
    · exact ⟨r, mem_append_left _ hr, hc⟩
    · obtain ⟨hd, hc⟩ := (rangeIn_contains hw a).mpr hs
      exact ⟨_, mem_append_right _ (mem_map.mpr ⟨w, mem_filter.mpr ⟨hw, hd⟩, rfl⟩), hc⟩

/-- The upstream slave port tells the host of what is advertised on behalf of the root ports. -/
theorem mem_getAddrRanges (a : Nat) :
    (∃ r ∈ getAddrRanges d, r.contains a = true) ↔ ∃ k, Advertised d k a := by
  simp only [getAddrRanges, mem_mergeSort, mem_append]
  constructor
  · rintro ⟨r, (hr | hr) | hr, ha⟩
    · exact ⟨.one, r, hr, ha⟩
    · exact ⟨.two, r, hr, ha⟩
    · exact ⟨.three, r, hr, ha⟩
  · rintro ⟨k, r, hr, ha⟩
    refine ⟨r, ?_, ha⟩
    cases k with
    | one => exact .inl (.inl hr)
    | two => exact .inl (.inr hr)
    | three => exact .inr hr

theorem decodes_iff (k : RootPort) (a : Nat) :
    decodes (d.port k) a = true ↔ InShown d k a ∨ InStray d k a := by
  unfold decodes
  rw [any_eq_true]
  constructor
  · rintro ⟨w, hw, h⟩
    rcases (window_decodes w a).mp h with h | h
    · exact .inl ⟨w, hw, h⟩
    · exact .inr ⟨w, hw, h⟩
  · rintro (⟨w, hw, h⟩ | ⟨w, hw, h⟩)
    · exact ⟨w, hw, (window_decodes w a).mpr (.inl h)⟩
    · exact ⟨w, hw, (window_decodes w a).mpr (.inr h)⟩

theorem reported_iff (k : RootPort) (a : Nat) :
    (d.peer k).any (·.contains a) = true ↔ Reported d k a := by
  unfold Reported
  rw [any_eq_true]

/-! ## First match -/

/-- The order in which `getMasterPort` tries the root ports. -/
def index : RootPort → Nat
  | .one => 1
  | .two => 2
  | .three => 3

/-- `P` holds of `k` and of no port tried before it. -/
def First (P : RootPort → Prop) (k : RootPort) : Prop := P k ∧ ∀ j, index j < index k → ¬ P j

theorem forall_rootPort {P : RootPort → Prop} : (∀ j, P j) ↔ P .one ∧ P .two ∧ P .three := by
  refine ⟨fun h => ⟨h _, h _, h _⟩, ?_⟩
  rintro ⟨h1, h2, h3⟩ j
  cases j <;> assumption

theorem getMasterPort_root (a : Nat) (k : RootPort) :
    getMasterPort d a = .root k ↔
      First (fun j => decodes (d.port j) a = true) k ∨
        ((∀ j, ¬ decodes (d.port j) a = true) ∧ First (fun j => Reported d j a) k) := by
  simp only [First, forall_rootPort, ← reported_iff]
  unfold getMasterPort
  cases k <;> simp only [index] <;> repeat' split
  all_goals simp_all

theorem getMasterPort_dma (a : Nat) :
    getMasterPort d a = .dma ↔ ∀ j, ¬ decodes (d.port j) a = true ∧ ¬ Reported d j a := by
  simp only [forall_rootPort, ← reported_iff]
  unfold getMasterPort
  repeat' split
  all_goals simp_all

/-! ## Where the decoders agree -/

/-- What the decoders need at `a`: where a port advertises a window there, no port
tried before it has a stray window there; an address advertised by a BAR only is
reached through the port's own stray window or its peer's ranges; and no stray
window covers an address that nobody advertises or reports. -/
structure Routable (d : Decoder) (a : Nat) : Prop where
  window : ∀ k, InShown d k a → ∀ j, index j < index k → ¬ InStray d j a
  bar : ∀ k, InBar d k a → ¬ InShown d k a →
    First (fun j => InStray d j a) k ∨
      ((∀ j, ¬ InStray d j a) ∧ First (fun j => Reported d j a) k)
  unclaimed : (∀ k, ¬ InBar d k a ∧ ¬ InShown d k a ∧ ¬ Reported d k a) → ∀ j, ¬ InStray d j a

variable {d : Decoder} {k : RootPort} {rs : List AddrRange} {a : Nat} {j p : RootPort}

/-- At most the port that advertises `a` has a window showing `a`. -/
theorem shown_only (hd : Disjoint d) (hk : Advertised d k a) (hj : InShown d j a) : j = k :=
  hd j k a ((advertised_iff d j a).mpr (.inr hj)) hk

theorem index_inj (h : index j < index k) : j ≠ k := by
  rintro rfl
  exact absurd h (lt_irrefl _)

/-- An address in an advertised window of `k` leaves by `k` unless a stray
window of an earlier port takes it. -/
theorem shown_routed (hd : Disjoint d) (hk : InShown d k a) :
    getMasterPort d a = .root k ↔ ∀ j, index j < index k → ¬ InStray d j a := by
  have hadv : Advertised d k a := (advertised_iff d k a).mpr (.inr hk)
  have hdec : decodes (d.port k) a = true := (decodes_iff d k a).mpr (.inl hk)
  rw [getMasterPort_root]
  constructor
  · rintro (⟨-, h⟩ | ⟨h, -⟩)
    · intro j hj hs
      exact h j hj ((decodes_iff d j a).mpr (.inr hs))
    · exact absurd hdec (h k)
  · intro h
    refine .inl ⟨hdec, fun j hj hjd => ?_⟩
    rcases (decodes_iff d j a).mp hjd with hs | hs
    · exact index_inj hj (shown_only hd hadv hs)
    · exact h j hj hs

/-- An address that only a BAR of `k` advertises is decoded by stray windows alone. -/
theorem bar_routed (hd : Disjoint d) (hk : InBar d k a) (hn : ¬ InShown d k a) :
    getMasterPort d a = .root k ↔ First (fun j => InStray d j a) k ∨
      ((∀ j, ¬ InStray d j a) ∧ First (fun j => Reported d j a) k) := by
  have hadv : Advertised d k a := (advertised_iff d k a).mpr (.inl hk)
  have hdec : ∀ j, decodes (d.port j) a = true ↔ InStray d j a := by
    intro j
    rw [decodes_iff]
    refine or_iff_right fun hs => ?_
    have hjk := shown_only hd hadv hs
    exact hn (hjk ▸ hs)
  rw [getMasterPort_root]
  simp only [hdec]

/-- **Where the decoders agree.** For every configuration whose root ports
advertise disjoint ranges, and every address: a request is routed as advertised
exactly when the address is routable. -/
theorem agree_iff {d : Decoder} (hd : Disjoint d) (a : Nat) : Agree d a ↔ Routable d a := by
  constructor
  · rintro ⟨hadv, hdma⟩
    refine ⟨fun k hk => ?_, fun k hk hn => ?_, fun hno j hs => ?_⟩
    · exact (shown_routed hd hk).mp (hadv k ((advertised_iff d k a).mpr (.inr hk)))
    · exact (bar_routed hd hk hn).mp (hadv k ((advertised_iff d k a).mpr (.inl hk)))
    · have hnone : ∀ k, ¬ Advertised d k a := fun k hk =>
        ((advertised_iff d k a).mp hk).elim (hno k).1 (hno k).2.1
      have h := hdma hnone fun k => (hno k).2.2
      exact ((getMasterPort_dma d a).mp h j).1 ((decodes_iff d j a).mpr (.inr hs))
  · intro hr
    refine ⟨fun k hk => ?_, fun hnone hrep => ?_⟩
    · by_cases hs : InShown d k a
      · exact (shown_routed hd hs).mpr (hr.window k hs)
      · have hb : InBar d k a := ((advertised_iff d k a).mp hk).resolve_right hs
        exact (bar_routed hd hb hs).mpr (hr.bar k hb hs)
    · have hno : ∀ k, ¬ InBar d k a ∧ ¬ InShown d k a := fun k =>
        ⟨fun h => hnone k ((advertised_iff d k a).mpr (.inl h)),
          fun h => hnone k ((advertised_iff d k a).mpr (.inr h))⟩
      have hstray := hr.unclaimed fun k => ⟨(hno k).1, (hno k).2, hrep k⟩
      rw [getMasterPort_dma]
      refine fun j => ⟨fun hj => ?_, hrep j⟩
      exact ((decodes_iff d j a).mp hj).elim (hno j).2 (hstray j)

/-! ## Two configurations -/

/-- Ports of which only one advertises anything are disjoint. -/
theorem disjoint_of_only (h : ∀ k, fillRanges (d.port k) = if k = p then rs else []) :
    Disjoint d := by
  have honly : ∀ k a, Advertised d k a → k = p := by
    rintro k a ⟨r, hr, -⟩
    by_contra hk
    rw [h, if_neg hk] at hr
    cases hr
  intro j k a hj hk
  rw [honly j a hj, honly k a hk]

theorem advertised_of_only (h : ∀ k, fillRanges (d.port k) = if k = p then rs else []) :
    Advertised d k a ↔ k = p ∧ ∃ r ∈ rs, r.contains a = true := by
  unfold Advertised
  rw [h]
  split
  · rename_i hk
    exact ⟨fun hr => ⟨hk, hr⟩, fun hr => hr.2⟩
  · rename_i hk
    exact ⟨fun ⟨r, hr, _⟩ => absurd hr (by simp), fun hr => absurd hr.1 hk⟩

/-- CXL memory behind root port 2 is routed as advertised: the stray I/O windows
of the other ports lie elsewhere. -/
theorem agree_iff_cxl_memory :
    ∃ d, (rootComplex fun _ => []).writes [(.two, ⟨0x20, 4, 0x9ff08000⟩)] = .ok d ∧ Disjoint d ∧
      Advertised d .two 0x80000000 ∧ Agree d 0x80000000 ∧ Routable d 0x80000000 := by
  obtain ⟨d, hd⟩ : ∃ d, (rootComplex fun _ => []).writes [(.two, ⟨0x20, 4, 0x9ff08000⟩)] = .ok d :=
    ⟨_, rfl⟩
  have hfill : ∀ k, fillRanges (d.port k) =
      if k = .two then [⟨0x80000000, 0xa0000000⟩] else [] := by
    cases hd
    intro k
    cases k <;> decide
  have hport : getMasterPort d 0x80000000 = .root .two := by
    cases hd
    decide
  have hadv : Advertised d .two 0x80000000 := (advertised_of_only hfill).mpr ⟨rfl, by decide⟩
  have hdis : Disjoint d := disjoint_of_only hfill
  have hagree : Agree d 0x80000000 := by
    refine ⟨fun k hk => ?_, fun h => absurd hadv (h .two)⟩
    rw [hport, ((advertised_of_only hfill).mp hk).1]
  exact ⟨d, hd, hdis, hadv, hagree, (agree_iff hdis 0x80000000).mp hagree⟩

/-- **A stray window in front of an advertised one.** Software programs the I/O
window of root port 2 with its reset values. The bridge then advertises
`[0x2f000000, 0x2f000fff]` on behalf of port 2 and on behalf of no other port,
but a request for it leaves by port 1, whose I/O registers were never written. -/
theorem io_window_misrouted :
    ∃ d, (rootComplex fun _ => []).writes [(.two, ⟨0x1C, 2, 0⟩)] = .ok d ∧ Disjoint d ∧
      Advertised d .two 0x2f000000 ∧ getMasterPort d 0x2f000000 = .root .one ∧
      ¬ Agree d 0x2f000000 := by
  obtain ⟨d, hd⟩ : ∃ d, (rootComplex fun _ => []).writes [(.two, ⟨0x1C, 2, 0⟩)] = .ok d := ⟨_, rfl⟩
  have hfill : ∀ k, fillRanges (d.port k) =
      if k = .two then [⟨0x2f000000, 0x2f001000⟩] else [] := by
    cases hd
    intro k
    cases k <;> decide
  have hport : getMasterPort d 0x2f000000 = .root .one := by
    cases hd
    decide
  have hadv : Advertised d .two 0x2f000000 := (advertised_of_only hfill).mpr ⟨rfl, by decide⟩
  refine ⟨d, hd, disjoint_of_only hfill, hadv, hport, fun h => ?_⟩
  have hc := h.1 .two hadv
  rw [hport] at hc
  cases hc

/-! ## Downstream ranges -/

section Downstream

variable {rs : List AddrRange} {r g : AddrRange} {a n : Nat} {m : Nat}

/-- The ranges neither wrap nor end at the top. -/
def Proper (rs : List AddrRange) : Prop := ∀ r ∈ rs, r.start < r.stop ∧ r.stop + 1 < 2 ^ 64

theorem rangeIn_pred (hm : n < m) (hlt : m < 2 ^ 64) :
    (rangeIn n (m - 1)).contains a = true ↔ n ≤ a ∧ a < m := by
  rw [AddrRange.contains_iff, rangeIn, Nat.sub_add_cancel (Nat.zero_lt_of_lt hm),
    Nat.mod_eq_of_lt hlt]

theorem mem_sweep_nil (hg : g ∈ sweep n []) : g.contains a = false := by
  unfold sweep at hg
  split at hg
  · cases hg
  · cases mem_singleton.1 hg
    simp [rangeIn, AddrRange.contains]

theorem mem_sweep_cons (hr : r.stop + 1 < 2 ^ 64) : g ∈ sweep n (r :: rs) ↔
    (n < r.start ∧ g = rangeIn n (r.start - 1)) ∨ g ∈ sweep (r.stop + 1) rs := by
  rw [sweep, Nat.mod_eq_of_lt hr]
  split <;> simp [*]

/-- The sweep does not go back behind `m`. -/
theorem sweep_ge (hp : Proper rs) (hn : m ≤ n) (hm : ∀ r ∈ rs, m ≤ r.stop + 1)
    (hg : g ∈ sweep n rs) (ha : g.contains a = true) : m ≤ a := by
  induction rs generalizing n with
  | nil => exact absurd ha (by simp [mem_sweep_nil hg])
  | cons r rs ih =>
    obtain ⟨⟨hlt, htop⟩, hp⟩ := forall_mem_cons.1 hp
    obtain ⟨hmr, hm⟩ := forall_mem_cons.1 hm
    obtain ⟨hgap, rfl⟩ | hg := (mem_sweep_cons htop).1 hg
    · exact hn.trans ((rangeIn_pred hgap (by omega)).1 ha).1
    · exact ih hp hmr hm hg

theorem sweep_disjoint (hp : Proper rs) (hs : rs.Pairwise fun r s => r.start ≤ s.start) :
    (sweep n rs).Pairwise fun g g' => ∀ b, g.contains b = true → g'.contains b = false := by
  induction rs generalizing n with
  | nil =>
    unfold sweep
    split <;> simp
  | cons r rs ih =>
    obtain ⟨⟨hlt, htop⟩, hp⟩ := forall_mem_cons.1 hp
    obtain ⟨hr, hs⟩ := pairwise_cons.1 hs
    have htail := ih (n := r.stop + 1) hp hs
    rw [sweep, Nat.mod_eq_of_lt htop]
    split
    · rename_i hgap
      refine pairwise_cons.2 ⟨fun g hg b hb => ?_, htail⟩
      by_contra hcon
      have hlow : ∀ t ∈ rs, r.start ≤ t.stop + 1 := fun t ht => by
        have := hr t ht
        have := hp t ht
        omega
      have hge := sweep_ge hp (by omega) hlow hg (Bool.not_eq_false _ ▸ hcon)
      exact absurd ((rangeIn_pred hgap (by omega)).1 hb).2 (not_lt.2 hge)
    · exact htail

/-- The gap of the sweep in which `a` lies is the one after the last range that starts at or before
`a`. Nothing is served past the last start. -/
theorem sweep_contains (hp : Proper rs) (hs : rs.Pairwise fun r s => r.start ≤ s.start) :
    (∃ g ∈ sweep n rs, g.contains a = true) ↔ (∃ r ∈ rs, a < r.start) ∧
      (rs.filter (·.start ≤ a)).getLast?.elim (n ≤ a) (·.stop < a) := by
  induction rs generalizing n with
  | nil => simpa using fun g hg => mem_sweep_nil hg
  | cons r rs ih =>
    obtain ⟨⟨hlt, htop⟩, hp⟩ := forall_mem_cons.1 hp
    obtain ⟨hr, hs⟩ := pairwise_cons.1 hs
    have hgap : (∃ g ∈ sweep n (r :: rs), g.contains a = true) ↔
        (n ≤ a ∧ a < r.start) ∨ ∃ g ∈ sweep (r.stop + 1) rs, g.contains a = true := by
      simp only [mem_sweep_cons htop, or_and_right, exists_or, and_assoc, exists_and_left,
        exists_eq_left]
      refine or_congr_left ⟨fun ⟨h, ha⟩ => (rangeIn_pred h (by omega)).1 ha, fun h => ?_⟩
      exact ⟨by omega, (rangeIn_pred (by omega) (by omega)).2 h⟩
    rw [hgap, ih hp hs, exists_mem_cons_iff]
    by_cases ha : a < r.start
    · have hnone : rs.filter (·.start ≤ a) = [] := filter_eq_nil_iff.2 fun s hs => by
        simpa using ha.trans_le (hr s hs)
      simp [hnone, ha]
      omega
    · rw [filter_cons_of_pos (by simpa using ha), getLast?_cons]
      cases (rs.filter (·.start ≤ a)).getLast? <;> simp [ha, Nat.succ_le_iff]

/-- Some address is past the ends of all ranges. -/
theorem exists_past (hp : Proper rs) : ∃ a < 2 ^ 64 - 1, ∀ r ∈ rs, r.stop ≤ a := by
  induction rs with
  | nil => exact ⟨0, by decide, forall_mem_nil _⟩
  | cons r rs ih =>
    obtain ⟨hr, hp⟩ := forall_mem_cons.1 hp
    obtain ⟨a, ha, hrs⟩ := ih hp
    refine ⟨max r.stop a, by omega, forall_mem_cons.2 ⟨le_max_left .., fun s hs => ?_⟩⟩
    exact (hrs s hs).trans (le_max_right ..)

/-- **Downstream ranges are never the complement.** They are disjoint. An address is served exactly
if a range starts after it and the last range that starts at or before it, if there is one, ends
before it: the end of a range and all that follows the last one are left out, and what follows a
nested range is served inside the outer one. In every configuration some address is in no range
and is not served. -/
theorem downstream_not_complement (c : ConfigClass) (hp : Proper (fillRanges c)) :
    ((downstreamRanges c).Pairwise fun g g' => ∀ b, g.contains b = true → g'.contains b = false) ∧
      (∀ a, (∃ g ∈ downstreamRanges c, g.contains a = true) ↔ (∃ r ∈ fillRanges c, a < r.start) ∧
        ∀ p ∈ ((sortedRanges c).filter (·.start ≤ a)).getLast?, p.stop < a) ∧
      ∃ a < 2 ^ 64 - 1, (∀ r ∈ fillRanges c, r.contains a = false) ∧
        ∀ g ∈ downstreamRanges c, g.contains a = false := by
  have hmem r : r ∈ sortedRanges c ↔ r ∈ fillRanges c := mem_mergeSort
  have hp' : Proper (sortedRanges c) := fun r hr => hp r ((hmem r).1 hr)
  have hstarts : (sortedRanges c).Pairwise fun r s => r.start ≤ s.start := by
    have hsorted : (sortedRanges c).Pairwise fun r s => decide (r.start ≤ s.start) = true :=
      pairwise_mergeSort (by simp; omega) (by simp; omega) _
    simpa using hsorted
  have hserved a : (∃ g ∈ downstreamRanges c, g.contains a = true) ↔
      (∃ r ∈ fillRanges c, a < r.start) ∧
        ∀ p ∈ ((sortedRanges c).filter (·.start ≤ a)).getLast?, p.stop < a := by
    simp only [← hmem]
    rw [downstreamRanges, sweep_contains hp' hstarts]
    cases ((sortedRanges c).filter (·.start ≤ a)).getLast? <;> simp
  refine ⟨sweep_disjoint hp' hstarts, hserved, ?_⟩
  obtain ⟨a, ha, hpast⟩ := exists_past hp
  refine ⟨a, ha, fun r hr => ?_, fun g hg => ?_⟩
  · have := hpast r hr
    simp [AddrRange.contains]
    omega
  · by_contra hga
    obtain ⟨⟨r, hr, hlt⟩, -⟩ := (hserved a).1 ⟨g, hg, Bool.not_eq_false _ ▸ hga⟩
    have := hpast r hr
    have := hp r hr
    omega

/-- BAR0 lies in the memory window `[0x80000000, 0xA0000000)`, BAR1 above it. -/
def nested : ConfigClass :=
  { storage1 :=
      { bar0 := 0x80001000, bar1 := 0xB0000000, memoryBase := 0x8000, memoryLimit := 0x9ff0 }
    barsize0 := 0x1000, barsize1 := 0x1000, validMemoryBase := true, validMemoryLimit := true }

/-- An address inside the window, past the nested BAR, is served. -/
theorem downstream_not_complement_nested : (∃ r ∈ fillRanges nested, r.contains 0x90000000 = true) ∧
    ∃ g ∈ downstreamRanges nested, g.contains 0x90000000 = true := by
  have hfill : fillRanges nested = [⟨0x80001000, 0x80002000⟩, ⟨0xB0000000, 0xB0001000⟩,
      ⟨0x80000000, 0xA0000000⟩] := by decide
  have hproper : Proper (fillRanges nested) := by
    unfold Proper
    decide
  refine ⟨by decide, ((downstream_not_complement nested hproper).2.1 _).2 ⟨by decide, ?_⟩⟩
  rw [sortedRanges, hfill]
  simp [mergeSort]

/-- A port with a BAR at `[0x1000, 0x2000)` and no window. -/
def oneBar : ConfigClass := { storage1 := { bar0 := 0x1000 }, barsize0 := 0x1000 }

theorem sortedRanges_oneBar : sortedRanges oneBar = [⟨0x1000, 0x2000⟩] := by
  rw [sortedRanges, show fillRanges oneBar = [⟨0x1000, 0x2000⟩] by decide, mergeSort_singleton]

/-- The address after the BAR is nobody's; a port without a window has no downstream range. -/
theorem downstream_incomplete : (∀ r ∈ fillRanges oneBar, r.contains 0x2000 = false) ∧
    (∀ g ∈ downstreamRanges oneBar, g.contains 0x2000 = false) ∧ downstreamRanges {} = [] := by
  refine ⟨by decide, ?_, ?_⟩
  · rw [downstreamRanges, sortedRanges_oneBar]
    decide
  · rw [downstreamRanges, sortedRanges, show fillRanges {} = [] by decide, mergeSort_nil]
    rfl

end Downstream

end Gem5Cxl.L3.RangeRouting
