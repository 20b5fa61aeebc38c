import Gem5Cxl.L2Machine.PciDevice

/-!
# Base address registers, their decoders and the ranges on the bus

Three places hold where a device's regions are: the registers in `config`, the
decoders, and the ranges the bus was told last. A 4-byte write to a base address
register, and a 2- or 4-byte write to the command register, keep the three in
step. A shorter write to the same bytes goes past the decoder, or past the bus.

* `Consistent`: each decoder starts where the host maps the address in its
  register, and the bus knows the present ranges.
* `consistent_of_whole`: it holds along every run whose shorter writes leave the
  addresses in the registers and the enable bits alone (`Whole`).
* `byte_writes_diverge`: one byte of a register, one byte of the command.
-/
namespace Gem5Cxl.L3.BarRanges

open Core L1 L2 L2.PciDevice PciBar List Machine

/-! ## The promise -/

/-- The address in a register without its flag bits. -/
def addrBits (bar : PciBar) (reg : Nat) : Nat :=
  match bar with
  | .none => 0
  | .io .. => reg / 4 * 4
  | .mem .. => reg / 8 * 8
  | .memUpper => reg

/-- The address in the register of a memory decoder, or in the pair of registers of a wide one. -/
def memAddress (d : PciDevice) (n : Nat) : Nat :=
  (if n + 1 < 6 ∧ d.bars (n + 1) = .memUpper then d.baseAddr (n + 1) * 2 ^ 32 else 0) +
    d.baseAddr n / 8 * 8

structure Consistent (host : PciHost) (d : PciDevice) : Prop where
  io : ∀ n, n < 6 → (d.bars n).isIo = true →
    (d.bars n).range.start = host.pioAddr (d.baseAddr n / 4 * 4)
  mem : ∀ n, n < 6 → (d.bars n).isMem = true →
    (d.bars n).range.start = host.memAddr (memAddress d n)
  ranges : d.getAddrRanges = d.notified

/-! ## The system -/

structure Write where
  offset : Nat
  size : Nat
  val : Nat
deriving DecidableEq, Repr

/-- A device as the simulation starts it, under naturally aligned writes of 1, 2 or 4 bytes. -/
def machine (host : PciHost) : Machine PciDevice Write Fault where
  init d := ∃ config params, construct host config params = .ok d
  enabled _ w := w.size ∈ [1, 2, 4] ∧ w.offset % w.size = 0 ∧ w.offset < 0x1000 ∧
    w.val < 256 ^ w.size
  step d w := d.writeConfig host w.offset w.size w.val

/-- The registers as the bytes of the write would leave them. -/
def stored (d : PciDevice) (w : Write) : PciDevice :=
  { d with config := writeLE d.config w.offset w.size w.val }

/-- The write stays in the header. If it is shorter than a register, it leaves the address in
each base address register; if it is one byte, it leaves the enable bits of the command register
that some decoder looks at. -/
def Whole (d : PciDevice) (w : Write) : Prop :=
  w.offset < 0x40 ∧
  (w.size < 4 → ∀ n, n < 6 →
    addrBits (d.bars n) ((stored d w).baseAddr n) = addrBits (d.bars n) (d.baseAddr n)) ∧
  (w.size = 1 →
    ((stored d w).command.testBit 0 = d.command.testBit 0 ∨ ∀ n, n < 6 → (d.bars n).isIo = false) ∧
    ((stored d w).command.testBit 1 = d.command.testBit 1 ∨ ∀ n, n < 6 → (d.bars n).isMem = false))

instance (d : PciDevice) (w : Write) :
    Decidable (Whole d w) := inferInstanceAs (Decidable (_ ∧ _ ∧ _))

/-! ## Registers and decoders -/

/-- The parts of a decoder that no write changes. -/
def shape : PciBar → PciBar
  | .io size _ => .io size 0
  | .mem size _ wide _ _ => .mem size 0 wide 0 0
  | bar => bar

/-- Decoder `n` holds what its register and the next one say, as far as they are below `k`. -/
def Holds (host : PciHost) (k n : Nat) (bar : PciBar) (reg next : Nat) : Prop :=
  match bar with
  | .io _ addr => n < k → addr = host.pioAddr (reg / 4 * 4)
  | .mem _ addr wide lower upper =>
    (upper = if wide = true ∧ n + 1 < k then next * 2 ^ 32 else 0) ∧
      (n < k → lower = reg / 8 * 8 ∧ addr = host.memAddr (upper + lower))
  | _ => True

/-- The decoders below `k` hold what their registers say; the constructor starts with `k = 0`. -/
def Held (host : PciHost) (k : Nat) (d : PciDevice) : Prop :=
  ∀ n, n < 6 → Holds host k n (d.bars n) (d.baseAddr n) (d.baseAddr (n + 1))

/-- A memory decoder is wide if the next one is its upper half. -/
def Linked (bars : Nat → PciBar) : Prop :=
  ∀ n size addr wide lower upper, n < 6 → bars n = .mem size addr wide lower upper →
    (wide = true ↔ n + 1 < 6 ∧ bars (n + 1) = .memUpper)

/-- Every upper half follows a memory decoder. -/
def Paired (bars : Nat → PciBar) : Prop :=
  ∀ n, n < 6 → bars n = .memUpper →
    ∃ m size addr wide lower upper, n = m + 1 ∧ bars m = .mem size addr wide lower upper

variable {wide : Bool} {size : Nat}

section Shape

variable {bars bars' : Nat → PciBar}

theorem shape_memUpper {b b' : PciBar} (h : shape b' = shape b) :
    b' = .memUpper ↔ b = .memUpper := by
  cases b <;> cases b' <;> simp_all [shape]

theorem shape_mem {b b' : PciBar} {addr lower upper : Nat}
    (h : shape b' = shape b) (hb : b' = .mem size addr wide lower upper) :
    ∃ addr' lower' upper', b = .mem size addr' wide lower' upper' := by
  cases b <;> simp_all [shape]

theorem Linked.congr (hs : ∀ n, shape (bars' n) = shape (bars n)) (h : Linked bars) :
    Linked bars' := by
  intro n size addr wide lower upper hn hb
  obtain ⟨addr', lower', upper', hb'⟩ := shape_mem (hs n) hb
  rw [shape_memUpper (hs (n + 1))]
  exact h n size addr' wide lower' upper' hn hb'

theorem Paired.congr (hs : ∀ n, shape (bars' n) = shape (bars n)) (h : Paired bars) :
    Paired bars' := by
  intro n hn hb
  obtain ⟨m, size, addr, wide, lower, upper, rfl, hm⟩ := h n hn ((shape_memUpper (hs n)).1 hb)
  obtain ⟨addr', lower', upper', hm'⟩ := shape_mem (hs m).symm hm
  exact ⟨m, size, addr', wide, lower', upper', rfl, hm'⟩

end Shape

section WriteBar

variable {host : PciHost} {k n : Nat} {d d' : PciDevice} {j val : Nat} {bar : PciBar}

variable {reg : Nat}

theorem baseAddr_self {c : Bytes} (hr : reg < 2 ^ 32)
    (hc : d.config = writeLE c (0x10 + 4 * n) 4 reg) : d.baseAddr n = reg := by
  rw [baseAddr, hc, readLE_writeLE]
  exact Nat.mod_eq_of_lt hr

theorem baseAddr_other (hj : j ≠ n)
    (hc : d'.config = writeLE d.config (0x10 + 4 * n) 4 reg) : d'.baseAddr j = d.baseAddr j := by
  rw [baseAddr, hc, readLE_writeLE_of_disjoint (by omega)]
  rfl

/-- A decoder that does not look at register `n` keeps its state when the register is written. -/
theorem Holds.other {next' : Nat} {next : Nat} (hk : n ≤ k) (hj : j ≠ n)
    (hwide : ∀ size addr lower upper, bar = .mem size addr true lower upper → j + 1 ≠ n ∧
      next' = next)
    (h : Holds host k j bar reg next) : Holds host (max k (n + 1)) j bar reg next' := by
  cases bar with
  | none => trivial
  | memUpper => trivial
  | io size addr =>
    intro hlt
    exact h (by omega)
  | mem size addr wide lower upper =>
    obtain ⟨hu, hl⟩ := h
    refine ⟨?_, fun hlt => hl (by omega)⟩
    cases wide with
    | false => exact hu
    | true =>
      obtain ⟨hne, rfl⟩ := hwide size addr lower upper rfl
      rw [hu]
      have hiff : j + 1 < k ↔ j + 1 < max k (n + 1) := by omega
      simp only [hiff]

theorem setBar_held (hl : Linked d.bars) (hk : n ≤ k) (hnot : d.bars n ≠ .memUpper)
    (hreg : reg < 2 ^ 32) (hself : Holds host (max k (n + 1)) n bar reg (d.baseAddr (n + 1)))
    (h : Held host k d) : Held host (max k (n + 1)) (d.setBar n bar reg) := by
  have hc : (d.setBar n bar reg).config = writeLE d.config (0x10 + 4 * n) 4 reg := rfl
  intro j hj
  by_cases hjn : j = n
  · subst hjn
    rw [baseAddr_self hreg hc, baseAddr_other (by omega) hc]
    simpa [setBar] using hself
  · have hbar : (d.setBar n bar reg).bars j = d.bars j := by simp [setBar, hjn]
    rw [hbar, baseAddr_other hjn hc]
    refine (h j hj).other hk hjn ?_
    intro size addr lower upper hb
    have hup := ((hl j size addr true lower upper hj hb).1 rfl).2
    have hne : j + 1 ≠ n := fun he => hnot (he ▸ hup)
    exact ⟨hne, baseAddr_other hne hc⟩

theorem masked_lt (size val : Nat) : masked size val < 2 ^ 32 := Nat.mod_lt _ (by decide)

theorem ioValue_lt (size val : Nat) : ioValue size val < 2 ^ 32 := by
  have := masked_lt size val
  simp only [ioValue]
  omega

theorem memValue_lt (size val : Nat) (wide : Bool) : memValue size val wide < 2 ^ 32 := by
  have := masked_lt size val
  simp only [memValue]
  split <;> omega

theorem setUpper_held {m addr lower upper : Nat} (hl : Linked d.bars)
    (hm : d.bars m = .mem size addr wide lower upper) (hn : m + 1 < 6) (hk : m + 1 ≤ k)
    (hb : d.bars (m + 1) = .memUpper) (h : Held host k d)
    (hw : d.setUpper host (m + 1) val = .ok d') : Held host (max k (m + 2)) d' := by
  have hwide : wide = true := (hl m size addr wide lower upper (by omega) hm).2 ⟨hn, hb⟩
  simp only [setUpper, hm] at hw
  cases hw
  obtain ⟨reg, hregdef⟩ : ∃ reg, reg = upperValue size val % 2 ^ 32 := ⟨_, rfl⟩
  have hreg : reg < 2 ^ 32 := by
    rw [hregdef]
    exact Nat.mod_lt _ (by decide)
  rw [← hregdef]
  intro j hj
  obtain ⟨e, he⟩ : ∃ e : PciDevice, e = { d with
      bars := Function.update d.bars m
        (.mem size (host.memAddr (reg * 2 ^ 32 + lower)) wide lower (reg * 2 ^ 32))
      config := writeLE d.config (0x10 + 4 * (m + 1)) 4 reg } := ⟨_, rfl⟩
  have hc : e.config = writeLE d.config (0x10 + 4 * (m + 1)) 4 reg := by rw [he]
  rw [← he]
  by_cases hjm : j = m
  · subst hjm
    have hbar : e.bars j =
        .mem size (host.memAddr (reg * 2 ^ 32 + lower)) wide lower (reg * 2 ^ 32) := by
      simp [he]
    rw [hbar, baseAddr_self hreg hc, baseAddr_other (by omega) hc]
    obtain ⟨-, hlow⟩ := hm ▸ h j hj
    refine ⟨?_, fun _ => ⟨(hlow (by omega)).1, rfl⟩⟩
    rw [if_pos ⟨hwide, by omega⟩]
  · have hbar : e.bars j = d.bars j := by simp [he, hjm]
    rw [hbar]
    by_cases hju : j = m + 1
    · rw [hju, hb]
      trivial
    · rw [baseAddr_other hju hc]
      refine (h j hj).other hk hju ?_
      intro size' addr' lower' upper' hb'
      have hne : j + 1 ≠ m + 1 := by omega
      exact ⟨hne, baseAddr_other hne hc⟩

/-- **A 4-byte write to a register goes through its decoder.** -/
theorem writeBar_held (hl : Linked d.bars) (hn : n < 6) (hk : n ≤ k) (h : Held host k d)
    (hw : d.writeBar host n val = .ok d') :
    Held host (max k (n + 1)) d' ∧ (∀ j, shape (d'.bars j) = shape (d.bars j)) ∧
      (d.bars n = .memUpper → ∃ m size addr wide lower upper, n = m + 1 ∧
        d.bars m = .mem size addr wide lower upper) := by
  have hshape : ∀ {bar : PciBar}, shape bar = shape (d.bars n) →
      ∀ j, shape (Function.update d.bars n bar j) = shape (d.bars j) := by
    intro bar hs j
    by_cases hj : j = n
    · rw [hj, Function.update_self, hs]
    · rw [Function.update_of_ne hj]
  unfold writeBar at hw
  cases hb : d.bars n with
  | none =>
    rw [hb] at hw
    cases hw
    exact ⟨setBar_held hl hk (by simp [hb]) (by decide) trivial h, hshape (by rw [hb]), nofun⟩
  | io size addr =>
    rw [hb] at hw
    cases hw
    refine ⟨setBar_held hl hk (by simp [hb]) (ioValue_lt size val) ?_ h,
      hshape (by rw [hb]; rfl), nofun⟩
    exact fun _ => rfl
  | mem size addr wide lower upper =>
    rw [hb] at hw
    cases hw
    refine ⟨setBar_held hl hk (by simp [hb]) (memValue_lt size val wide) ?_ h,
      hshape (by rw [hb]; rfl), nofun⟩
    obtain ⟨hu, -⟩ := hb ▸ h n hn
    refine ⟨?_, fun _ => ⟨rfl, rfl⟩⟩
    -- the next register is below `k` before the write if and only if it is after it
    have hiff : n + 1 < max k (n + 1) ↔ n + 1 < k := by omega
    simpa only [hiff] using hu
  | memUpper =>
    rw [hb] at hw
    cases n with
    | zero => cases hw
    | succ m =>
      cases hm : d.bars m with
      | mem size addr wide lower upper =>
        refine ⟨setUpper_held hl hm hn hk hb h hw, ?_, fun _ => ⟨m, _, _, _, _, _, rfl, hm⟩⟩
        simp only [setUpper, hm] at hw
        cases hw
        intro j
        by_cases hj : j = m
        · rw [hj, hm]
          simp [shape]
        · simp [hj]
      | none | io size addr | memUpper => simp [setUpper, hm] at hw

theorem writeBar_ok (host : PciHost) (val : Nat) (hp : Paired d.bars) (hn : n < 6) :
    ∃ d', d.writeBar host n val = .ok d' := by
  unfold writeBar
  cases hb : d.bars n with
  | none | io size addr | mem size addr wide lower upper => exact ⟨_, rfl⟩
  | memUpper =>
    obtain ⟨m, size, addr, wide, lower, upper, rfl, hm⟩ := hp n hn hb
    simp only [setUpper, hm]
    exact ⟨_, rfl⟩

/-- What the register of a decoder holds after 0 was written to it. -/
def cleared : PciBar → Nat
  | .io .. => 1
  | .mem _ _ wide _ _ => if wide then 4 else 0
  | _ => 0

theorem cleared_lt (b : PciBar) : cleared b < 2 ^ 32 := by
  unfold cleared
  split
  · decide
  · split <;> decide
  · decide

theorem writeBar_zero (hw : d.writeBar host n 0 = .ok d') :
    d'.baseAddr n = cleared (d.bars n) ∧ ∀ j, j ≠ n → d'.baseAddr j = d.baseAddr j := by
  unfold writeBar at hw
  cases hb : d.bars n with
  | none | io size addr =>
    simp only [hb, ioValue, masked, Nat.zero_and] at hw
    cases hw
    exact ⟨baseAddr_self (cleared_lt _) rfl, fun j hj => baseAddr_other hj rfl⟩
  | mem size addr wide lower upper =>
    have hv : memValue size 0 wide = if wide then 4 else 0 := by simp [memValue, masked]
    simp only [hb, hv] at hw
    cases hw
    exact ⟨baseAddr_self (cleared_lt _) rfl, fun j hj => baseAddr_other hj rfl⟩
  | memUpper =>
    simp only [hb] at hw
    unfold setUpper at hw
    split at hw
    · cases hw
    · split at hw
      · simp only [upperValue, Nat.zero_and] at hw
        cases hw
        exact ⟨baseAddr_self (cleared_lt _) rfl, fun j hj => baseAddr_other hj rfl⟩
      · cases hw

end WriteBar

/-! ## Construction -/

section Construct

variable {host : PciHost} {d d' : PciDevice} {k : Nat} {bars : Nat → PciBar}

theorem cleared_shape (b : PciBar) : cleared (shape b) = cleared b := by
  cases b <;> rfl

/-- The constructor's loop has written the registers below `k`. -/
structure Built (host : PciHost) (bars : Nat → PciBar) (k : Nat) (d : PciDevice) : Prop where
  held : Held host k d
  shapes : ∀ j, shape (d.bars j) = shape (bars j)
  paired : ∀ n, n < k → bars n = .memUpper →
    ∃ m size addr wide lower upper, n = m + 1 ∧ bars m = .mem size addr wide lower upper
  registers : ∀ n, n < k → d.baseAddr n = cleared (bars n)

theorem Built.writeBar (hl : Linked bars) (hk : k < 6)
    (h : Built host bars k d) (hw : d.writeBar host k 0 = .ok d') : Built host bars (k + 1) d' := by
  obtain ⟨hheld, hsh, hup⟩ := writeBar_held (hl.congr h.shapes) hk le_rfl h.held hw
  rw [max_eq_right (by omega)] at hheld
  refine ⟨hheld, fun j => (hsh j).trans (h.shapes j), ?_, ?_⟩
  · intro n hn hb
    by_cases hnk : n = k
    · subst hnk
      obtain ⟨m, size, addr, wide, lower, upper, rfl, hm⟩ :=
        hup ((shape_memUpper (h.shapes n)).2 hb)
      obtain ⟨addr', lower', upper', hm'⟩ := shape_mem (h.shapes m) hm
      exact ⟨m, size, addr', wide, lower', upper', rfl, hm'⟩
    · exact h.paired n (by omega) hb
  · obtain ⟨hself, hother⟩ := writeBar_zero hw
    intro n hn
    by_cases hnk : n = k
    · rw [hnk, hself, ← cleared_shape, h.shapes k, cleared_shape]
    · rw [hother n hnk]
      exact h.registers n (by omega)

theorem built_foldlM (hl : Linked bars) (hk : k ≤ 6)
    (h : Built host bars 0 d) (hw : (range k).foldlM (fun d n => d.writeBar host n 0) d = .ok d') :
    Built host bars k d' := by
  induction k generalizing d' with
  | zero =>
    cases hw
    exact h
  | succ k ih =>
    rw [range_succ, foldlM_append] at hw
    obtain ⟨e, he, hw⟩ := bind_eq_ok.1 hw
    obtain ⟨e', he', hw⟩ := bind_eq_ok.1 hw
    cases hw
    exact (ih (by omega) he).writeBar hl (by omega) he'

theorem linked_newBar (params : Nat → BarParams) : Linked (newBar params) := by
  intro n size addr wide lower upper hn hb
  have hup : newBar params (n + 1) = .memUpper ↔ params (n + 1) = .memUpper := by
    cases hp : params (n + 1) <;> simp [newBar, hp]
  rw [hup]
  cases hp : params n with
  | none | io size | memUpper => simp [newBar, hp] at hb
  | mem size =>
    simp only [newBar, hp, mem.injEq] at hb
    rw [← hb.2.2.1]
    simp [and_comm]

/-- The device as it starts. -/
theorem built_construct {config : Bytes} {params : Nat → BarParams}
    (h : construct host config params = .ok d) : Built host (newBar params) 6 d := by
  obtain ⟨e, he, hd⟩ := bind_eq_ok.1 h
  cases hd
  have hb : Built host (newBar params) 6 e := by
    refine built_foldlM (linked_newBar params) le_rfl ⟨?_, fun _ => rfl, nofun, nofun⟩ he
    intro n hn
    cases hp : params n <;> simp [newBar, hp, Holds]
  exact { hb with }

end Construct

/-! ## The invariant -/

structure Inv (host : PciHost) (d : PciDevice) : Prop where
  held : Held host 6 d
  linked : Linked d.bars
  paired : Paired d.bars
  told : d.getAddrRanges = d.notified

section Step

variable {host : PciHost} {d d' : PciDevice} {w : Write} {i : Nat}

theorem Inv.consistent (h : Inv host d) : Consistent host d := by
  refine ⟨?_, ?_, h.told⟩
  · intro n hn hio
    cases hb : d.bars n with
    | io size addr => exact (hb ▸ h.held n hn) hn
    | _ => simp [hb, isIo] at hio
  · intro n hn hmem
    cases hb : d.bars n with
    | mem size addr wide lower upper =>
      obtain ⟨hu, hl⟩ := hb ▸ h.held n hn
      obtain ⟨hlow, haddr⟩ := hl hn
      have hwide := h.linked n size addr wide lower upper hn hb
      have hpair : (wide = true ∧ n + 1 < 6) ↔ n + 1 < 6 ∧ d.bars (n + 1) = .memUpper :=
        ⟨fun hx => hwide.1 hx.1, fun hx => ⟨hwide.2 hx, hx.1⟩⟩
      show addr = _
      rw [haddr, hu, hlow, memAddress]
      simp only [hpair]
    | _ => simp [hb, isMem] at hmem

theorem inv_construct {config : Bytes} {params : Nat → BarParams}
    (h : construct host config params = .ok d) : Inv host d := by
  have hb := built_construct h
  have hpair : Paired (newBar params) := hb.paired
  refine ⟨hb.held, (linked_newBar params).congr hb.shapes, hpair.congr hb.shapes, ?_⟩
  obtain ⟨e, -, hd⟩ := bind_eq_ok.1 h
  cases hd
  rfl

/-- Writes that leave the addresses in the registers leave them in step with the decoders. -/
theorem Held.keep (hl : Linked d.bars) (hb : d'.bars = d.bars)
    (hr : ∀ n, n < 6 → addrBits (d.bars n) (d'.baseAddr n) = addrBits (d.bars n) (d.baseAddr n))
    (h : Held host 6 d) : Held host 6 d' := by
  intro n hn
  have hself := hr n hn
  have hold := h n hn
  rw [hb]
  cases hbar : d.bars n with
  | none => trivial
  | memUpper => trivial
  | io size addr =>
    rw [hbar] at hself hold
    intro hlt
    rw [hold hlt]
    exact congrArg host.pioAddr hself.symm
  | mem size addr wide lower upper =>
    rw [hbar] at hself hold
    obtain ⟨hu, hlow⟩ := hold
    refine ⟨?_, fun hlt => ⟨(hlow hlt).1.trans hself.symm, (hlow hlt).2⟩⟩
    rw [hu]
    split
    · rename_i hw
      obtain ⟨hn1, hup⟩ := (hl n size addr wide lower upper hn hbar).1 hw.1
      have hnext := hr (n + 1) hn1
      rw [hup] at hnext
      have hnext : d'.baseAddr (n + 1) = d.baseAddr (n + 1) := hnext
      rw [hnext]
    · rfl

theorem command_testBit (d : PciDevice) (hi : i < 8) :
    d.command.testBit i = (d.config 4).toNat.testBit i := by
  have hb := (d.config 4).toNat_lt
  have hc : d.command = 2 ^ 8 * (d.config 5).toNat + (d.config 4).toNat := by
    show (d.config 4).toNat + 256 * ((d.config 5).toNat + 256 * 0) = _
    omega
  rw [hc, Nat.testBit_two_pow_mul_add _ (by omega), if_pos hi]

theorem Inv.silent (h : Inv host d) (hb : d'.bars = d.bars) (hn : d'.notified = d.notified)
    (hr : ∀ n, n < 6 → addrBits (d.bars n) (d'.baseAddr n) = addrBits (d.bars n) (d.baseAddr n))
    (h0 : d'.command.testBit 0 = d.command.testBit 0 ∨ ∀ n, n < 6 → (d.bars n).isIo = false)
    (h1 : d'.command.testBit 1 = d.command.testBit 1 ∨ ∀ n, n < 6 → (d.bars n).isMem = false) :
    Inv host d' := by
  refine ⟨h.held.keep h.linked hb hr, hb ▸ h.linked, hb ▸ h.paired, ?_⟩
  rw [hn, ← h.told]
  simp only [getAddrRanges, hb]
  refine flatMap_congr fun n hn => ?_
  have hn : n < 6 := mem_range.1 hn
  simp only [barRanges]
  congr 1
  · rcases h0 with h0 | h0
    · rw [h0]
    · simp [h0 n hn]
  · rcases h1 with h1 | h1
    · rw [h1]
    · simp [h1 n hn]

theorem Inv.sendRangeChange (h : Held host 6 d') (hl : Linked d'.bars) (hp : Paired d'.bars) :
    Inv host d'.sendRangeChange := ⟨h, hl, hp, rfl⟩

variable {offset val : Nat}

theorem baseAddr_apart {n : Nat} (hn : n < 6) (h : offset + size ≤ 0x10 ∨ 0x28 ≤ offset)
    (hc : d'.config = writeLE d.config offset size val) : d'.baseAddr n = d.baseAddr n := by
  rw [baseAddr, hc, readLE_writeLE_of_disjoint (by omega)]
  rfl

theorem testBit_apart (hi : i < 8) (h : offset + size ≤ 4 ∨ 5 ≤ offset)
    (hc : d'.config = writeLE d.config offset size val) :
    d'.command.testBit i = d.command.testBit i := by
  rw [command_testBit _ hi, command_testBit _ hi, hc, writeLE_outside (by omega)]

theorem Inv.writeHeader1 (h : Inv host d) (hg : Whole d ⟨offset, 1, val⟩) :
    Inv host { d with config := writeLE d.config offset 1 val } :=
  h.silent rfl rfl (hg.2.1 (by simp)) (hg.2.2 rfl).1 (hg.2.2 rfl).2

theorem Inv.writeHeader2 (h : Inv host d) (hal : offset % 2 = 0)
    (hg : Whole d ⟨offset, 2, val⟩) : Inv host (d.writeHeader2 offset val) := by
  unfold PciDevice.writeHeader2
  split
  · exact .sendRangeChange (h.held.keep h.linked rfl (hg.2.1 (by simp))) h.linked h.paired
  · refine h.silent rfl rfl ?_ (.inl (testBit_apart (by decide) (by decide) rfl))
      (.inl (testBit_apart (by decide) (by decide) rfl))
    intro n hn
    rw [baseAddr_apart hn (by decide) rfl]
  · rename_i h4 hc
    have hne : offset ≠ 4 := h4
    exact h.silent rfl rfl (hg.2.1 (by simp)) (.inl (testBit_apart (by decide) (by omega) rfl))
      (.inl (testBit_apart (by decide) (by omega) rfl))

theorem Inv.writeHeader4 (h : Inv host d) :
    ∃ d', d.writeHeader4 host offset val = .ok d' ∧ Inv host d' := by
  unfold PciDevice.writeHeader4
  split
  · have hn : (offset - 0x10) / 4 < 6 := by omega
    obtain ⟨e, he⟩ := writeBar_ok host val h.paired hn
    obtain ⟨hheld, hsh, -⟩ := writeBar_held h.linked hn (by omega) h.held he
    rw [max_eq_left (by omega)] at hheld
    exact ⟨_, bind_eq_ok.2 ⟨e, he, rfl⟩,
      .sendRangeChange hheld (h.linked.congr hsh) (h.paired.congr hsh)⟩
  split
  · refine ⟨_, rfl, h.silent rfl rfl ?_ (.inl (testBit_apart (by decide) (by decide) rfl))
      (.inl (testBit_apart (by decide) (by decide) rfl))⟩
    intro n hn
    rw [baseAddr_apart hn (by decide) rfl]
  split
  · refine ⟨_, rfl, .sendRangeChange (h.held.keep h.linked rfl ?_) h.linked h.paired⟩
    intro n hn
    rw [baseAddr_apart hn (by decide) rfl]
  · exact ⟨d, rfl, h⟩

/-- What a write that meets the condition does: it panics, or keeps everything in step. -/
theorem inv_step (h : Inv host d) (he : (machine host).enabled d w) (hg : Whole d w) :
    d.writeConfig host w.offset w.size w.val = .error (.panic "read only") ∨
      ∃ d', d.writeConfig host w.offset w.size w.val = .ok d' ∧ Inv host d' := by
  obtain ⟨hs, hal, -⟩ := he
  obtain ⟨offset, size, val⟩ := w
  unfold writeConfig
  split
  · exact .inl rfl
  · right
    rw [if_neg (not_le.2 hg.1)]
    simp only [mem_cons, not_mem_nil, or_false] at hs
    rcases hs with rfl | rfl | rfl
    · exact ⟨_, rfl, h.writeHeader1 hg⟩
    · exact ⟨_, rfl, h.writeHeader2 hal hg⟩
    · exact h.writeHeader4

end Step

/-- **Registers, decoders and ranges stay in step** along every run, until it panics, whose
shorter writes leave the addresses and the enable bits alone. -/
theorem consistent_of_whole {host : PciHost} {x : Except Fault PciDevice}
    (hr : ((machine host).under Whole).Reachable x) :
    x = .error (.panic "read only") ∨ ∃ d, x = .ok d ∧ Consistent host d := by
  have hinit : ∀ d, (machine host).init d → Inv host d := by
    rintro d ⟨config, params, hd⟩
    exact inv_construct hd
  exact (total_or hinit (fun d w => inv_step) hr).imp_right
    fun ⟨d, hd, hi⟩ => ⟨d, hd, hi.consistent⟩

/-! ## One device -/

/-- A wide memory decoder of 4 KiB and four I/O decoders of 256 bytes. -/
def sixBars : Nat → BarParams
  | 0 => .mem 0x1000
  | 1 => .memUpper
  | _ => .io 0x100

def plainHost : PciHost := ⟨fun a => 0x2f000000 + a, id⟩

/-- The device as the simulation starts it, with an empty configuration space. -/
def started : PciDevice :=
  match construct plainHost (fun _ => 0) sixBars with
  | .ok d => d
  | .error _ => { config := fun _ => 0 }

theorem init_started : (machine plainHost).init started := ⟨fun _ => 0, sixBars, rfl⟩

/-- The decidable form of `enabled`. -/
def possible (w : Write) : Bool :=
  decide (w.size ∈ [1, 2, 4] ∧ w.offset % w.size = 0 ∧ w.offset < 0x1000 ∧ w.val < 256 ^ w.size)

theorem enabled_of_possible {host : PciHost} {d : PciDevice} {w : Write} (h : possible w = true) :
    (machine host).enabled d w := by
  have hw := of_decide_eq_true h
  exact hw

/-- Both spaces are enabled and the memory decoder is moved above 4 GiB. -/
theorem consistent_of_whole_wide :
    ∃ d, ((machine plainHost).under Whole).Reachable (.ok d) ∧
      d.notified.head? = some ⟨0x180001000, 0x180002000⟩ ∧
      (Except.ok d = (.error (.panic "read only") : Except Fault PciDevice) ∨
        ∃ e, Except.ok d = (.ok e : Except Fault PciDevice) ∧ Consistent plainHost e) := by
  have hrun := fun {y} => under_runs
    (fun d w => possible w && decide (Whole d w))
    (fun d w h => ⟨enabled_of_possible (Bool.and_eq_true_iff.1 h).1,
      of_decide_eq_true (Bool.and_eq_true_iff.1 h).2⟩)
    [⟨0x04, 2, 3⟩, ⟨0x10, 4, 0x80001000⟩, ⟨0x14, 4, 1⟩] (y := y) (under_init init_started)
  exact ⟨_, hrun rfl, rfl, consistent_of_whole (hrun rfl)⟩

/-- **Bytes written past the decoder and past the bus.** One byte of a register moves the address
in it and not the decoder; one byte of the command register enables the decoders and the bus is
not told. -/
theorem byte_writes_diverge :
    (∃ d, (machine plainHost).lts.Reachable (.ok d) ∧ memAddress d 0 = 0x1000 ∧
      (d.bars 0).range = ⟨0, 0x1000⟩ ∧ ¬ Consistent plainHost d) ∧
    ∃ d, (machine plainHost).lts.Reachable (.ok d) ∧ d.notified = [] ∧
      d.getAddrRanges.length = 5 ∧ ¬ Consistent plainHost d := by
  have hrun := fun {y} ls => lts_runs (fun _ w => possible w)
    (fun _ _ => enabled_of_possible) ls (y := y) (lts_init init_started)
  refine ⟨⟨_, hrun [⟨0x11, 1, 0x10⟩] rfl, rfl, rfl, ?_⟩, ⟨_, hrun [⟨0x04, 1, 3⟩] rfl, rfl, rfl, ?_⟩⟩
  · intro h
    exact absurd (h.mem 0 (by decide) rfl) (by decide)
  · intro h
    exact absurd (congrArg length h.ranges) (by decide)

end Gem5Cxl.L3.BarRanges
