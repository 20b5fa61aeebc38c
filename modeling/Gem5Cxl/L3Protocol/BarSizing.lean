import Gem5Cxl.Core.Tiling
import Gem5Cxl.L3Protocol.BarRanges

/-!
# Sizing and placement of a memory base address register

The register of a memory decoder and that of its upper half are written in any
order. The decoder masks what is written with its size, in 32 bits in the lower
half and in 64 bits in the upper one, and each half keeps the other's part.

* `Placed`: the decoder, the register and the upper register hold one bus address. The
  constructor leaves every memory decoder at 0 (`placed_construct`).
* `bar_sizing`: after any writes that address is the last value written, rounded
  down to a multiple of the size. If it is all ones, what is read back tells the size.
-/
namespace Gem5Cxl.L3.BarSizing

open Core L1 L2 L2.PciDevice BarRanges

/-- Each half of the rounded value depends on that half of the value only. -/
theorem rounded_halves {v k : Nat} (hv : v < 2 ^ 64) (hk : k ≤ 64) :
    v / 2 ^ k * 2 ^ k / 2 ^ 32 = v / 2 ^ 32 &&& (2 ^ 64 - 2 ^ k) / 2 ^ 32 ∧
      v / 2 ^ k * 2 ^ k % 2 ^ 32 = v % 2 ^ 32 &&& (2 ^ 64 - 2 ^ k) % 2 ^ 32 := by
  rw [← and_high hk hv]
  exact ⟨Nat.and_div_two_pow .., Nat.and_mod_two_pow ..⟩

/-- A 4-byte write to the register (`false`) or to its upper half (`true`). -/
def writeReg (host : PciHost) (n : Nat) (d : PciDevice) (w : Bool × Nat) : Except Fault PciDevice :=
  d.writeConfig host (0x10 + 4 * if w.1 then n + 1 else n) 4 w.2

/-- The last values written to the two halves of `v`. -/
def last : Nat → List (Bool × Nat) → Nat
  | v, [] => v
  | v, (false, lo) :: ws => last (v / 2 ^ 32 * 2 ^ 32 + lo) ws
  | v, (true, hi) :: ws => last (hi * 2 ^ 32 + v % 2 ^ 32) ws

/-- The memory decoder `n` and its registers hold the bus address `a`. -/
structure Placed (host : PciHost) (n size : Nat) (wide : Bool) (a : Nat) (d : PciDevice) :
    Prop where
  bar : d.bars n = .mem size (host.memAddr a) wide (a % 2 ^ 32) (a / 2 ^ 32 * 2 ^ 32)
  lower : d.baseAddr n = a % 2 ^ 32 + if wide then 4 else 0
  upper : wide = true → d.bars (n + 1) = .memUpper ∧ d.baseAddr (n + 1) = a / 2 ^ 32

variable {host : PciHost} {n k v : Nat} {wide : Bool} {d : PciDevice}

/-- The constructor leaves every memory decoder at 0. -/
theorem placed_construct {config : Bytes} {params : Nat → BarParams} {size : Nat}
    (h : construct host config params = .ok d) (hn : n < 6) (hp : params n = .mem size) :
    Placed host n size (params (n + 1) == .memUpper && decide (n + 1 < 6)) 0 d := by
  have hb := built_construct h
  have hnew : newBar params n =
      .mem size 0 (params (n + 1) == .memUpper && decide (n + 1 < 6)) 0 0 := by
    simp [newBar, hp]
  generalize hw : (params (n + 1) == .memUpper && decide (n + 1 < 6)) = wide at hnew ⊢
  have hreg : d.baseAddr n = if wide then 4 else 0 := by
    rw [hb.registers n hn, hnew]
    rfl
  have hnext : wide = true → d.bars (n + 1) = .memUpper ∧ d.baseAddr (n + 1) = 0 := by
    rintro rfl
    obtain ⟨hup, hlt⟩ : params (n + 1) = .memUpper ∧ n + 1 < 6 := by simpa using hw
    have hup : newBar params (n + 1) = .memUpper := by simp [newBar, hup]
    refine ⟨(shape_memUpper (hb.shapes (n + 1))).2 hup, ?_⟩
    rw [hb.registers (n + 1) hlt, hup]
    rfl
  obtain ⟨addr, lower, upper, hbar⟩ := shape_mem (hb.shapes n).symm hnew
  obtain ⟨hu, hl⟩ := hbar ▸ hb.held n hn
  obtain ⟨hlow, haddr⟩ := hl hn
  have hlow : lower = 0 := by
    rw [hlow, hreg]
    cases wide <;> rfl
  have hu : upper = 0 := by
    rw [hu]
    split
    · rename_i hx
      rw [(hnext hx.1).2, Nat.zero_mul]
    · rfl
  refine ⟨?_, by simpa using hreg, hnext⟩
  rw [hbar, haddr, hlow, hu]
  rfl

theorem writeReg_eq {b : Bool} {val : Nat} (hn : (if b then n + 1 else n) < 6) :
    writeReg host n d
      (b, val) = (d.writeBar host (if b then n + 1 else n) val).map sendRangeChange := by
  simp only [writeReg]
  generalize (if b then n + 1 else n) = m at *
  have hro : readOnly (d.config 0x0E).toNat (0x10 + 4 * m) = false := by
    simp [readOnly, List.contains_eq_mem]
    omega
  have hoff : (0x10 + 4 * m - 0x10) / 4 = m := by omega
  rw [PciDevice.writeConfig, hro, if_neg (by decide), if_neg (by omega), writeHeader, writeHeader4,
    if_pos (by omega), hoff]
  rfl

theorem Placed.writeLower (h4 : 4 ≤ k) (hk : k ≤ 63) (hn : n < 6) (hv : v < 2 ^ 64) {lo : Nat}
    (hlo : lo < 2 ^ 32)
    (h : Placed host n (2 ^ k) wide (v / 2 ^ k * 2 ^ k) d) :
    ∃ d', writeReg host n d (false, lo) = .ok d' ∧
      Placed host n (2 ^ k) wide ((v / 2 ^ 32 * 2 ^ 32 + lo) / 2 ^ k * 2 ^ k) d' := by
  obtain ⟨hdiv, hmod⟩ :=
    rounded_halves (v := v / 2 ^ 32 * 2 ^ 32 + lo) (k := k) (by omega) (by omega)
  rw [show (v / 2 ^ 32 * 2 ^ 32 + lo) / 2 ^ 32 = v / 2 ^ 32 by omega,
    ← (rounded_halves hv (by omega)).1] at hdiv
  rw [Nat.mul_add_mod_self_right, ← Nat.and_mod_two_pow] at hmod
  have h16 : (v / 2 ^ 32 * 2 ^ 32 + lo) / 2 ^ k * 2 ^ k % 16 = 0 := by
    obtain ⟨j, rfl⟩ : ∃ j, k = j + 4 := ⟨k - 4, by omega⟩
    rw [pow_add, ← mul_assoc]
    exact Nat.mul_mod_left _ _
  generalize (v / 2 ^ 32 * 2 ^ 32 + lo) / 2 ^ k * 2 ^ k = a at *
  have hreg : PciBar.memValue (2 ^ k) lo wide = a % 2 ^ 32 + if wide then 4 else 0 := by
    rw [PciBar.memValue, PciBar.masked]
    omega
  have hlow : (a % 2 ^ 32 + if wide then 4 else 0) / 8 * 8 = a % 2 ^ 32 := by
    split <;> omega
  have hlt : a % 2 ^ 32 + (if wide then 4 else 0) < 2 ^ 32 := hreg ▸ memValue_lt _ _ _
  rw [writeReg_eq (by simpa using hn)]
  simp only [Bool.false_eq_true, if_false, writeBar, h.bar, hreg, hlow, ← hdiv, Nat.div_add_mod']
  refine ⟨_, rfl, by simp [sendRangeChange, setBar], baseAddr_self hlt rfl, fun hw => ?_⟩
  obtain ⟨hb, hu⟩ := h.upper hw
  refine ⟨by simpa [sendRangeChange, setBar] using hb, ?_⟩
  rw [baseAddr_other (by omega) rfl, hu, hdiv]

theorem Placed.writeUpper (hk : k ≤ 63) (hn : n + 1 < 6) (hv : v < 2 ^ 64) {hi : Nat}
    (hhi : hi < 2 ^ 32)
    (h : Placed host n (2 ^ k) true (v / 2 ^ k * 2 ^ k) d) :
    ∃ d', writeReg host n d (true, hi) = .ok d' ∧
      Placed host n (2 ^ k) true ((hi * 2 ^ 32 + v % 2 ^ 32) / 2 ^ k * 2 ^ k) d' := by
  obtain ⟨hdiv, hmod⟩ :=
    rounded_halves (v := hi * 2 ^ 32 + v % 2 ^ 32) (k := k) (by omega) (by omega)
  rw [show (hi * 2 ^ 32 + v % 2 ^ 32) % 2 ^ 32 = v % 2 ^ 32 by omega,
    ← (rounded_halves hv (by omega)).2] at hmod
  have hreg : PciBar.upperValue (2 ^ k) hi % 2 ^ 32 =
      (hi * 2 ^ 32 + v % 2 ^ 32) / 2 ^ k * 2 ^ k / 2 ^ 32 := by
    have h1 := Nat.one_le_two_pow (n := k)
    have hp : 2 ^ k ≤ 2 ^ 63 := Nat.pow_le_pow_right (by decide) hk
    have hmask : (2 ^ 64 - 1 - (2 ^ k - 1) / 2 ^ 32) % 2 ^ 32 =
        (2 ^ 64 - 2 ^ k) / 2 ^ 32 := by omega
    rw [hdiv, PciBar.upperValue, Nat.and_mod_two_pow]
    congr 1
    omega
  have hlt : (hi * 2 ^ 32 + v % 2 ^ 32) / 2 ^ k * 2 ^ k / 2 ^ 32 < 2 ^ 32 :=
    hreg ▸ Nat.mod_lt _ (by decide)
  generalize (hi * 2 ^ 32 + v % 2 ^ 32) / 2 ^ k * 2 ^ k = a at *
  obtain ⟨hb, -⟩ := h.upper rfl
  rw [writeReg_eq (by simpa using hn)]
  simp only [if_true, writeBar, hb, setUpper, h.bar, hreg, ← hmod, Nat.div_add_mod']
  refine ⟨_, rfl, by simp [sendRangeChange], ?_, fun _ => ⟨?_, baseAddr_self hlt rfl⟩⟩
  · rw [baseAddr_other (by omega) rfl, h.lower, hmod]
  · simpa [sendRangeChange] using hb

theorem Placed.writes (h4 : 4 ≤ k) (hk : k ≤ 63) (hn : (if wide then n + 1 else n) < 6)
    {ws : List (Bool × Nat)}
    (hws : ∀ w ∈ ws, w.2 < 2 ^ 32 ∧ (w.1 = true → wide = true)) (hv : v < 2 ^ 64)
    (h : Placed host n (2 ^ k) wide (v / 2 ^ k * 2 ^ k) d) :
    ∃ d', ws.foldlM (writeReg host n) d = .ok d' ∧ last v ws < 2 ^ 64 ∧
      Placed host n (2 ^ k) wide (last v ws / 2 ^ k * 2 ^ k) d' := by
  induction ws generalizing d v with
  | nil => exact ⟨d, rfl, hv, h⟩
  | cons w ws ih =>
    obtain ⟨⟨hlt, hwide⟩, htail⟩ := List.forall_mem_cons.1 hws
    obtain ⟨b, val⟩ := w
    rw [List.foldlM_cons]
    cases b with
    | false =>
      obtain ⟨d', hd', h'⟩ := h.writeLower h4 hk (by split at hn <;> omega) hv hlt
      rw [hd']
      exact ih htail (by omega) h'
    | true =>
      obtain rfl := hwide rfl
      obtain ⟨d', hd', h'⟩ := h.writeUpper hk hn hv hlt
      rw [hd']
      exact ih htail (by omega) h'

/-- **Sizing and placement.** After any writes the bus address is the last value written,
rounded down to a multiple of the size, and if that value is all ones, the two's complement
of the address bits read back is the size. -/
theorem bar_sizing (h4 : 4 ≤ k) (hk : k ≤ if wide then 63 else 31)
    (hn : (if wide then n + 1 else n) < 6)
    (ws : List (Bool × Nat)) (hws : ∀ w ∈ ws, w.2 < 2 ^ 32 ∧ (w.1 = true → wide = true))
    (hv : v < 2 ^ 64) (h : Placed host n (2 ^ k) wide (v / 2 ^ k * 2 ^ k) d) :
    ∃ d', ws.foldlM (writeReg host n) d = .ok d' ∧ Placed host n (2 ^ k) wide
      (last v ws / 2 ^ k * 2 ^ k) d' ∧
      (wide = false → last v ws % 2 ^ 32 = 2 ^ 32 - 1 → 2 ^ 32 - d'.baseAddr n / 16 * 16 = 2 ^ k) ∧
      (wide = true → last v ws = 2 ^ 64 - 1 →
        2 ^ 64 - (d'.baseAddr (n + 1) * 2 ^ 32 + d'.baseAddr n / 16 * 16) = 2 ^ k) := by
  have hk63 : k ≤ 63 := by split at hk <;> omega
  obtain ⟨d', hd', hlt, h'⟩ := Placed.writes h4 hk63 hn hws hv h
  have hlower := h'.lower
  have h1 := Nat.one_le_two_pow (n := k - 4)
  have h16 : 2 ^ k = 2 ^ (k - 4) * 16 := by rw [← Nat.pow_add (n := 4), Nat.sub_add_cancel h4]
  refine ⟨d', hd', h', ?_, ?_⟩
  · rintro rfl hones
    have hp : 2 ^ k ≤ 2 ^ 31 := Nat.pow_le_pow_right (by decide) (hk)
    rw [(rounded_halves hlt (by omega)).2, hones, Nat.and_comm,
      Nat.and_two_pow_sub_one_eq_mod] at hlower
    simp only [Bool.false_eq_true, if_false] at hlower
    omega
  · rintro rfl hones
    have hp : 2 ^ k ≤ 2 ^ 63 := Nat.pow_le_pow_right (by decide) hk63
    have hupper := (h'.upper rfl).2
    rw [← and_high (by omega) hlt, hones, Nat.and_comm,
      Nat.and_two_pow_sub_one_eq_mod] at hlower hupper
    simp only [if_true] at hlower
    omega

/-- A device as the simulation starts it: its wide decoder of 4 KiB is at 0, and is sized. -/
theorem bar_sizing_started : Placed plainHost 0 (2 ^ 12) true (0 / 2 ^ 12 * 2 ^ 12) started ∧
    ∃ d, [(false, 0xFFFFFFFF), (true, 0xFFFFFFFF)].foldlM (writeReg plainHost 0) started = .ok d ∧
      2 ^ 64 - (d.baseAddr 1 * 2 ^ 32 + d.baseAddr 0 / 16 * 16) = 2 ^ 12 := by
  have hstart : construct plainHost (fun _ => 0) sixBars = .ok started := rfl
  have hplaced : Placed plainHost 0 (2 ^ 12) true (0 / 2 ^ 12 * 2 ^ 12) started :=
    placed_construct hstart (by decide) rfl
  obtain ⟨d, hd, -, -, hsize⟩ := bar_sizing (by decide) (by decide) (by decide)
    [(false, 0xFFFFFFFF), (true, 0xFFFFFFFF)] (by decide) (by decide) hplaced
  exact ⟨hplaced, d, hd, hsize rfl rfl⟩

end Gem5Cxl.L3.BarSizing
