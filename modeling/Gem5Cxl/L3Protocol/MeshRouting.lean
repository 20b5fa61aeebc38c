import Gem5Cxl.L2Machine.RoutingUnit

/-!
# XY routing in a mesh

**Result.** `xy_minimal`: a flit makes as many hops as there are columns and rows between its
source and its destination. No hop lacks its link or fails an assertion.

**Why.** A flit moves along its row first, and never turns back (`Heading`).
-/
namespace Gem5Cxl.L3.MeshRouting

open Core L1 L2.RoutingUnit

/-- The router and inport of a flit after some hops; `none` if it was at its destination before,
an assertion failed or there was no link. -/
def hops (rows cols dest : Nat) : Nat → Nat × PortDirection → Option (Nat × PortDirection)
  | 0, f => some f
  | n + 1, (r, inport) => do
    hops rows cols dest n (← link rows cols r (← (outportCompute rows cols r dest inport).toOption))

def gap (a b : Nat) : Nat := (a - b) + (b - a)

def distance (cols r dest : Nat) : Nat :=
  gap (r % cols) (dest % cols) + gap (r / cols) (dest / cols)

/-- A flit in column `x` and row `y` has not left its row before it is in column `x'`, and it has
not turned. -/
structure Heading (x y x' y' : Nat) (inport : PortDirection) : Prop where
  east : x < x' → inport = .ni ∨ inport = .west
  west : x' < x → inport = .ni ∨ inport = .east
  north : y < y' → inport ≠ .north
  south : y' < y → inport ≠ .south

variable {rows cols x y x' y' : Nat} {inport : PortDirection}

@[simp] theorem column (hx : x < cols) : (x + cols * y) % cols = x := by
  rw [Nat.add_mul_mod_self_left, Nat.mod_eq_of_lt hx]

@[simp] theorem row (hx : x < cols) : (x + cols * y) / cols = y := by
  rw [Nat.add_mul_div_left _ _ (Nat.zero_lt_of_lt hx), Nat.div_eq_of_lt hx, Nat.zero_add]

theorem hop_nearer (hx : x < cols) (hx' : x' < cols) (hy : y < rows) (hy' : y' < rows)
    (h : Heading x y x' y' inport) (hne : x' + cols * y' ≠ x + cols * y) :
    ∃ d x₁ y₁ inport₁, outportCompute rows cols (x + cols * y) (x' + cols * y') inport = .ok d ∧
      link rows cols (x + cols * y) d = some (x₁ + cols * y₁, inport₁) ∧ x₁ < cols ∧ y₁ < rows ∧
      Heading x₁ y₁ x' y' inport₁ ∧ gap x₁ x' + gap y₁ y' + 1 = gap x x' + gap y y' := by
  have hpos : 0 < rows ∧ 0 < cols := ⟨Nat.zero_lt_of_lt hy, Nat.zero_lt_of_lt hx⟩
  unfold gap
  simp only [outportCompute, if_neg hne, outportComputeXY, check, if_pos hpos, column hx,
    column hx', row hx, row hx', ok_bind]
  rcases Nat.lt_trichotomy x x' with hlt | rfl | hlt
  · refine ⟨.east, x + 1, y, .west, ?_, ?_, by omega, hy,
      ⟨fun _ => .inr rfl, by omega, nofun, nofun⟩, by omega⟩
    · rw [if_pos (by omega), if_pos (by omega), if_pos (by omega), if_pos (h.east hlt)]
      rfl
    · rw [link, column hx, if_pos (by omega), Nat.add_right_comm]
  · rcases Nat.lt_trichotomy y y' with hlt | rfl | hlt
    · refine ⟨.north, x, y + 1, .south, ?_, ?_, hx, by omega,
        ⟨by omega, by omega, nofun, by omega⟩, by omega⟩
      · rw [if_pos (by omega), if_neg (by omega), if_pos (by omega), if_pos (by omega),
          if_pos (h.north hlt)]
        rfl
      · rw [link, row hx, if_pos (by omega), Nat.mul_succ, Nat.add_assoc]
    · exact absurd rfl hne
    · obtain ⟨y, rfl⟩ := Nat.exists_eq_add_one.2 (Nat.zero_lt_of_lt hlt)
      refine ⟨.south, x, y, .north, ?_, ?_, hx, by omega,
        ⟨by omega, by omega, by omega, nofun⟩, by omega⟩
      · rw [if_pos (by omega), if_neg (by omega), if_pos (by omega), if_neg (by omega),
          if_pos (h.south hlt)]
        rfl
      · rw [link, row hx, if_pos (by omega), Nat.mul_succ, ← Nat.add_assoc, Nat.add_sub_cancel]
  · obtain ⟨x, rfl⟩ := Nat.exists_eq_add_one.2 (Nat.zero_lt_of_lt hlt)
    refine ⟨.west, x, y, .east, ?_, ?_, by omega, hy,
      ⟨by omega, fun _ => .inr rfl, nofun, nofun⟩, by omega⟩
    · rw [if_pos (by omega), if_pos (by omega), if_neg (by omega), if_pos (h.west hlt)]
      rfl
    · rw [link, column hx, if_pos (by omega), Nat.add_right_comm, Nat.add_sub_cancel]

theorem run_nearer (hx' : x' < cols) (hy' : y' < rows) (n : Nat) (hx : x < cols) (hy : y < rows)
    (h : Heading x y x' y' inport) (hn : n ≤ gap x x' + gap y y') :
    ∃ x₁ y₁ inport₁,
      hops rows cols (x' + cols * y') n (x + cols * y, inport) = some (x₁ + cols * y₁, inport₁) ∧
      x₁ < cols ∧ y₁ < rows ∧ gap x₁ x' + gap y₁ y' + n = gap x x' + gap y y' := by
  induction n generalizing x y inport with
  | zero => exact ⟨x, y, inport, rfl, hx, hy, rfl⟩
  | succ n ih =>
    have hne : x' + cols * y' ≠ x + cols * y := by
      intro heq
      have hcol := congrArg (· % cols) heq
      have hrow := congrArg (· / cols) heq
      simp only [column hx, column hx', row hx, row hx'] at hcol hrow
      simp [gap, hcol, hrow] at hn
    obtain ⟨d, x₁, y₁, inport₁, hout, hlink, hx₁, hy₁, h₁, hnear⟩ := hop_nearer hx hx' hy hy' h hne
    obtain ⟨x₂, y₂, inport₂, hops₂, hx₂, hy₂, hdist⟩ := ih hx₁ hy₁ h₁ (by omega)
    exact ⟨x₂, y₂, inport₂, by simp [hops, hout, hlink, hops₂, Except.toOption], hx₂, hy₂, by omega⟩

/-- **XY routing is minimal.** After `n` hops, `n` no more than the distance, the flit is at a
router of the mesh that is `n` nearer: at its destination after that many hops, and not before. -/
theorem xy_minimal (rows cols src dest n : Nat) (hsrc : src < rows * cols)
    (hdest : dest < rows * cols) (hn : n ≤ distance cols src dest) :
    ∃ r inport, hops rows cols dest n (src, .ni) = some (r, inport) ∧ r < rows * cols ∧
      distance cols r dest + n = distance cols src dest ∧
        (r = dest ↔ n = distance cols src dest) := by
  have hcols : 0 < cols := Nat.pos_of_mul_pos_left (Nat.zero_lt_of_lt hsrc)
  have hstart : Heading (src % cols) (src / cols) (dest % cols) (dest / cols) .ni :=
    ⟨fun _ => .inl rfl, fun _ => .inl rfl, nofun, nofun⟩
  have hrow : ∀ {r}, r < rows * cols → r / cols < rows := (Nat.div_lt_iff_lt_mul hcols).2
  obtain ⟨x, y, inport, hrun, hx, hy, hdist⟩ :=
    run_nearer (Nat.mod_lt _ hcols) (hrow hdest) n (Nat.mod_lt _ hcols) (hrow hsrc) hstart hn
  rw [Nat.mod_add_div, Nat.mod_add_div] at hrun
  have hleft : distance cols (x + cols * y) dest + n = distance cols src dest := by
    rwa [distance, column hx, row hx]
  refine ⟨_, inport, hrun, ?_, hleft, fun hdest => ?_, fun hall => ?_⟩
  · rwa [← Nat.div_lt_iff_lt_mul hcols, row hx]
  · rw [hdest] at hleft
    simpa [distance, gap] using hleft
  · unfold distance gap at *
    rw [← Nat.mod_add_div dest cols]
    congr 1
    · omega
    · congr 1
      omega

/-- From one corner of a mesh of 2 rows and 3 columns to the other. -/
theorem xy_minimal_corner : hops 2 3 5 3 (0, .ni) = some (5, .south) ∧
    ∃ r inport, hops 2 3 5 3 (0, .ni) = some (r, inport) ∧ r < 2 * 3 ∧
      distance 3 r 5 + 3 = distance 3 0 5 ∧ (r = 5 ↔ 3 = distance 3 0 5) :=
  ⟨by decide, xy_minimal 2 3 0 5 3 (by decide) (by decide) (by decide)⟩

end Gem5Cxl.L3.MeshRouting
