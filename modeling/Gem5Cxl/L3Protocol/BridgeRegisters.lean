import Gem5Cxl.Core.Lts
import Gem5Cxl.L2Machine.ConfigSpace

/-!
# Register writes of a root port

The header of a root port is written in three widths, each with its own branch
of `writeConfig`, and followed by the capability structure.

* `read_only_kept`: read-only bytes and nibbles keep their values in every run whose
  writes spare those that `writeConfig` does not protect (`Spares`): the byte behind the
  bus numbers and the low nibbles of the prefetchable window (`read_only_overwritten`).
* `widths_agree`: a 4-byte write to the memory or prefetchable window is the
  same as its two halves, and so is a 2-byte write to the I/O window. For Command
  and Status it is so only for some values (`command_width`): the 2-byte branches
  read one byte of the packet.
* `capability_reads`: the capability structure reads as memory whose slot registers
  ignore writes, as long as nothing else is written to it. No write is stored: the
  test for the slot registers is never met (`capability_write_lost`).
* `windows_decode`: after writes of the widths that have a branch (`supported`) the three
  windows are what the registers' bytes say, unless the prefetchable window reaches a
  sign bit or its limit the upper 16 bits of the upper half (`prefetchable_truncated`).
-/
namespace Gem5Cxl.L3.BridgeRegisters

open Core L1 L2.ConfigSpace List

/-! ## Read-only registers -/

/-- Config writes to a port that starts as `c₀`. -/
def machine (c₀ : ConfigClass) : Machine ConfigClass ConfigWrite Fault where
  init c := c = c₀
  enabled _ w := w.addr % 4096 < 64
  step c w := (writeConfig c w).map Prod.fst

variable {c : ConfigClass} {w : ConfigWrite} (v o : UInt16)

theorem writeConfig_cases {c' : ConfigClass} (h : (writeConfig c w).map Prod.fst = .ok c') :
    c' = c ∨ (w.size = 1 ∧ c' = (writeConfig1 c (w.addr % 4096) w.data.toUInt8).1) ∨
      (w.size = 2 ∧ c' = (writeConfig2 c (w.addr % 4096) w.data.toUInt16).1) ∨
      (w.size = 4 ∧ c' = (writeConfig4 c (w.addr % 4096) w.data).1) := by
  simp only [writeConfig] at h
  split_ifs at h
  · split at h <;> cases h
    · exact .inr (.inl ⟨‹_›, rfl⟩)
    · exact .inr (.inr (.inl ⟨‹_›, rfl⟩))
    · exact .inr (.inr (.inr ⟨‹_›, rfl⟩))
  · cases h
    exact .inl rfl
  · cases h
    exact .inl rfl
  · cases h

/-- The write leaves the read-only bytes that `writeConfig` does not protect. -/
def Spares (c : ConfigClass) (w : ConfigWrite) : Prop :=
  let h := c.storage1
  (w.addr % 4096 = 0x18 → w.size = 4 → (w.data >>> 24).toUInt8 = h.secondaryLatencyTimer) ∧
    (w.addr % 4096 = 0x24 → w.size ≠ 1 → w.data.toUInt16 &&& 0xF = h.prefetchableMemoryBase &&& 0xF) ∧
    (w.addr % 4096 = 0x26 ∧ w.size = 2 ∨ w.addr % 4096 = 0x24 ∧ w.size = 4 → h.prefetchableMemoryLimit &&& 0xF = 0)

/-- The read-only registers, and the low nibbles of the window registers. -/
def readOnly (h : Header) : List UInt16 × List UInt8 :=
  ([h.vendorId, h.deviceId, h.memoryBase &&& 0xF, h.memoryLimit &&& 0xF, h.prefetchableMemoryBase &&& 0xF,
    h.prefetchableMemoryLimit &&& 0xF],
   [h.revision, h.progIF, h.subClassCode, h.classCode, h.cacheLineSize, h.latencyTimer, h.headerType,
    h.secondaryLatencyTimer, h.capabilityPointer, h.interruptPin, h.ioBase &&& 0xF, h.ioLimit &&& 0xF])

theorem and_merge {n : Nat} (v o m : BitVec n) : ((v &&& ~~~m) ||| (o &&& m)) &&& m = o &&& m := by
  ext i hi
  grind

@[simp] theorem merge8_and (v o : UInt8) : merge8 0xF v o &&& 0xF = o &&& 0xF :=
  UInt8.toBitVec_inj.1 (and_merge _ _ _)

@[simp] theorem merge16_and : merge16 0xF 0xF v o &&& 0xF = o &&& 0xF :=
  UInt16.toBitVec_inj.1 (and_merge _ _ _)

@[simp] theorem merge16_zero : merge16 0 0 v o = v := by
  simp [merge16]

@[simp] theorem merge16_limit : merge16 0xF 0 v o &&& 0xF = 0 := by
  have h := merge16_and v 0
  simpa [merge16] using h

theorem writeConfig_readOnly {c' : ConfigClass} (hs : Spares c w)
    (h : (writeConfig c w).map Prod.fst = .ok c') : readOnly c'.storage1 = readOnly c.storage1 := by
  obtain ⟨h18, h24, h26⟩ := hs
  obtain rfl | ⟨-, rfl⟩ | ⟨hn, rfl⟩ | ⟨hn, rfl⟩ := writeConfig_cases h
  · rfl
  · unfold writeConfig1
    split <;> simp [readOnly]
  · unfold writeConfig2
    split <;> simp_all [readOnly]
  · unfold writeConfig4
    split <;> simp_all [readOnly]

/-- Offsets of the read-only registers: those `isWritable` refuses and the bytes that follow
them. -/
def readOnlyBytes : List Nat :=
  [0x00, 0x01, 0x02, 0x03, 0x08, 0x09, 0x0A, 0x0B, 0x0C, 0x0D, 0x0E, 0x1B, 0x34, 0x35, 0x36, 0x37, 0x3D]

theorem toUInt8_and {x y : UInt16} (h : x &&& 0xF = y &&& 0xF) :
    x.toUInt8 &&& 0xF = y.toUInt8 &&& 0xF := by
  simpa using congrArg UInt16.toUInt8 h

theorem data_readOnly {h h' : Header} (he : readOnly h' = readOnly h) :
    (∀ i ∈ readOnlyBytes, h'.data i = h.data i) ∧
      ∀ i ∈ [0x1C, 0x1D, 0x20, 0x22, 0x24, 0x26], h'.data i &&& 0xF = h.data i &&& 0xF := by
  simp only [readOnly, Prod.mk.injEq, cons.injEq, and_true] at he
  constructor
  · simp [readOnlyBytes, Header.data, Header.registers, range_succ, byteOf, he]
  · simp [Header.data, Header.registers, range_succ, byteOf, he]
    exact ⟨toUInt8_and he.1.2.2.1, toUInt8_and he.1.2.2.2.1, toUInt8_and he.1.2.2.2.2.1,
      toUInt8_and he.1.2.2.2.2.2⟩

/-- **Read-only registers.** They and the low nibbles of the window registers keep their values. -/
theorem read_only_kept {c₀ c : ConfigClass} (hr : ((machine c₀).under Spares).Reachable (.ok c)) :
    (∀ i ∈ readOnlyBytes, c.storage1.data i = c₀.storage1.data i) ∧
      ∀ i ∈ [0x1C, 0x1D, 0x20, 0x22, 0x24, 0x26],
        c.storage1.data i &&& 0xF = c₀.storage1.data i &&& 0xF := by
  refine data_readOnly (Machine.invariant (I := fun c => readOnly c.storage1 = readOnly c₀.storage1) ?_ ?_ hr)
  · rintro c rfl
    rfl
  · intro c w c' hi _ hs h
    exact (writeConfig_readOnly hs h).trans hi

theorem read_only_kept_busNumbers :
    ((writeConfig4 (rootComplexPort 0x9c90) 0x18 0x20100).1).storage1.data 0x1B =
      (rootComplexPort 0x9c90).storage1.data 0x1B :=
  (read_only_kept (Machine.under_step ⟨0x18, 4, 0x20100⟩ (Machine.under_init rfl) (by simp [machine])
    (by simp +decide [Spares]) rfl)).1 0x1B (by simp [readOnlyBytes])

/-- The 4-byte write to the bus numbers reaches the read-only byte behind them, and the low nibble
of the prefetchable base is not masked. -/
theorem read_only_overwritten :
    isWritable 0x1B = false ∧
      (writeConfig (rootComplexPort 0x9c90) ⟨0x18, 4, 0xFF020100⟩).map
        (·.1.storage1.data 0x1B) = .ok 0xFF ∧
      (writeConfig (rootComplexPort 0x9c90) ⟨0x24, 2, 0xFFF1⟩).map
        (·.1.storage1.data 0x24) = .ok 0xF1 := by
  decide

/-! ## Write widths -/

def header (c : ConfigClass) (ws : List ConfigWrite) : Except Fault Header :=
  (ws.foldlM (fun c w => (writeConfig c w).map Prod.fst) c).map (·.storage1)

theorem or_eq_iff {n : Nat} {v m k : BitVec n} (hk : k &&& m = 0) :
    v = (v &&& m) ||| k ↔ v &&& ~~~m = k := by
  simp only [BitVec.eq_of_getElem_eq_iff, BitVec.getElem_and, BitVec.getElem_or, BitVec.getElem_not] at hk ⊢
  refine forall₂_congr fun i hi => ?_
  grind

theorem write_eq (c : ConfigClass) (page : Nat) {offset : Nat} (v : UInt32) (h : offset < 64)
    (hw : isWritable offset = true) :
    writeConfig c ⟨4096 * page + offset, 1, v⟩ = .ok (writeConfig1 c offset v.toUInt8) ∧
      writeConfig c ⟨4096 * page + offset, 2, v⟩ = .ok (writeConfig2 c offset v.toUInt16) ∧
      writeConfig c ⟨4096 * page + offset, 4, v⟩ = .ok (writeConfig4 c offset v) := by
  simp [writeConfig, Nat.mod_eq_of_lt (show offset < 4096 by omega), h, hw]

/-- **Write widths.** The two ways to write a register pair leave the same header, Command
and Status apart: there exactly if the high byte of Command is 0x04 and that of Status is 0.
-/
theorem widths_agree (c : ConfigClass) (v : UInt32) (page : Nat) :
    let at4 offset := header c [⟨4096 * page + offset, 4, v⟩]
    let at2 offset := header c [⟨4096 * page + offset, 2, v⟩, ⟨4096 * page + (offset + 2), 2, v >>> 16⟩]
    at4 0x20 = at2 0x20 ∧ at4 0x24 = at2 0x24 ∧
      (at4 0x04 = at2 0x04 ↔ v.toUInt16 &&& 0xFF00 = 0x0400 ∧ (v >>> 16).toUInt16 &&& 0xFF00 = 0) ∧
      header c [⟨4096 * page + 0x1C, 2, v⟩] =
        header c [⟨4096 * page + 0x1C, 1, v⟩, ⟨4096 * page + 0x1D, 1, v >>> 8⟩] := by
  have hw c v o h (ho : isWritable o = true) :=
    write_eq c page v h ho
  simp only [header, foldlM_cons, foldlM_nil]
  simp only [(hw _ _ 0x20 (by decide) rfl).2, (hw _ _ 0x22 (by decide) rfl).2, (hw _ _ 0x24 (by decide) rfl).2,
    (hw _ _ 0x26 (by decide) rfl).2, (hw _ _ 0x04 (by decide) rfl).2, (hw _ _ 0x06 (by decide) rfl).2,
    (hw _ _ 0x1C (by decide) rfl).1, (hw _ _ 0x1D (by decide) rfl).1, (hw _ _ 0x1C (by decide) rfl).2, Except.map, ok_bind]
  refine ⟨rfl, rfl, ?_, ?_⟩
  · show Except.ok (writeConfig4 c 0x04 v).1.storage1 =
      .ok (writeConfig2 (writeConfig2 c 0x04 v.toUInt16).1 0x06 (v >>> 16).toUInt16).1.storage1 ↔ _
    simp only [Except.ok.injEq, writeConfig4, writeConfig2, Header.mk.injEq, true_and, and_true]
    refine and_congr ?_ ?_
    · rw [← UInt16.toBitVec_inj, ← UInt16.toBitVec_inj]
      exact or_eq_iff rfl
    · rw [← UInt16.toBitVec_inj, ← UInt16.toBitVec_inj]
      simpa using or_eq_iff (v := (v >>> 16).toUInt16.toBitVec) (m := 0xFF) (k := 0) rfl
  · have h8 : (v.toUInt16 >>> 8).toUInt8 = (v >>> 8).toUInt8 := by
      apply UInt8.toNat_inj.1
      simp [Nat.shiftRight_eq_div_pow]
      omega
    simp [writeConfig2, writeConfig1, h8]

/-- The 2-byte write to Command sets the bit that disables interrupts, the 4-byte write
clears it. -/
theorem command_width :
    header (rootComplexPort 0x9c90) [⟨0x04, 4, 0⟩] ≠
      header (rootComplexPort 0x9c90) [⟨0x04, 2, 0⟩, ⟨0x06, 2, 0⟩] := by
  decide

/-! ## The capability structure -/

def Inside (c : ConfigClass) (addr size : Nat) : Prop :=
  c.pxcapBaseOffset ≤ addr % 4096 ∧ addr % 4096 + size ≤ c.pxcapBaseOffset + 36

/-- The capability structure as memory whose slot registers ignore writes. -/
def stored (c : ConfigClass) (m : Bytes) (ws : List ConfigWrite) : Bytes :=
  ws.foldl (fun m w b => if 20 ≤ b ∧ b ≤ 27 then m b
    else writeLE m (w.addr % 4096 - c.pxcapBaseOffset) w.size w.data.toNat b) m

theorem write_capability (m : Bytes) (hbase : 64 ≤ c.pxcapBaseOffset)
    (hw : Inside c w.addr w.size) (h0 : 0 < w.size) : write (c, m) w = .ok (c, m) := by
  obtain ⟨hlo, hhi⟩ := hw
  have h64 : ¬ w.addr % 4096 < 64 := by omega
  have hslot o : ¬ (o < 20 ∧ 27 < o) := by omega
  simp [write, writeConfig, writeCapability, h64, hlo, hslot, show w.addr % 4096 < c.pxcapBaseOffset + 36 by omega]

/-- **The capability structure.** After any writes inside it, a read returns the bytes last
written, the slot registers apart, exactly if these are the bytes that were there before. -/
theorem capability_reads (c : ConfigClass) (m : Bytes) (ws : List ConfigWrite) (addr n : Nat)
    (hbase : 64 ≤ c.pxcapBaseOffset) (hws : ∀ w ∈ ws, Inside c w.addr w.size ∧ 0 < w.size)
    (hr : Inside c addr n) (hn : n = 1 ∨ n = 2 ∨ n = 4) :
    let offset := addr % 4096 - c.pxcapBaseOffset
    ∃ s, ws.foldlM write (c, m) = .ok s ∧
      (readConfig s.1 s.2 addr n = .ok (readLE (stored c m ws) offset n) ↔
        ∀ j < n, stored c m ws (offset + j) = m (offset + j)) := by
  intro offset
  refine ⟨(c, m), ?_, ?_⟩
  · induction ws with
    | nil => rfl
    | cons w ws ih =>
      obtain ⟨hw, hws⟩ := forall_mem_cons.1 hws
      rw [foldlM_cons, write_capability m hbase hw.1 hw.2]
      exact ih hws
  · obtain ⟨hlo, hhi⟩ := hr
    have hread : readConfig c m addr n = .ok (readLE m offset n) := by
      simp [readConfig, hn, hlo, offset, show ¬ addr % 4096 < 64 by omega,
        show addr % 4096 < c.pxcapBaseOffset + 36 by omega]
    rw [hread, Except.ok.injEq]
    refine ⟨fun h j hj => ?_, fun hsame => readLE_congr fun j hj => (hsame j hj).symm⟩
    have hbyte := congrArg (byteOf · j) h
    simpa only [byteOf_readLE _ _ hj] using hbyte.symm

theorem capability_reads_slot :
    ∃ s, [ConfigWrite.mk 0xE4 4 7].foldlM write (rootComplexPort 0x9c90, fun _ => 0) = .ok s ∧
      readConfig s.1 s.2 0xE4 4 =
        .ok (readLE (stored (rootComplexPort 0x9c90) (fun _ => 0) [⟨0xE4, 4, 7⟩]) 0x14 4) := by
  obtain ⟨s, hs, hread⟩ := capability_reads (rootComplexPort 0x9c90) (fun _ => 0) [⟨0xE4, 4, 7⟩] 0xE4 4
    (by decide) (by simp [Inside, rootComplexPort]) (by simp [Inside, rootComplexPort]) (by decide)
  exact ⟨s, hs, hread.2 (by decide)⟩

/-- A write to the link control register is not stored. -/
theorem capability_write_lost :
    ([ConfigWrite.mk 0xE0 2 0x40].foldlM write (rootComplexPort 0x9c90, fun _ => 0) >>=
        fun s => readConfig s.1 s.2 0xE0 2) = .ok 0 ∧
      readLE (stored (rootComplexPort 0x9c90) (fun _ => 0) [⟨0xE0, 2, 0x40⟩]) 0x10 2 = 0x40 := by
  decide

/-! ## Windows -/

/-- The widths in which the window registers can be written. -/
def supported : List (Nat × Nat) :=
  [(0x1C, 1), (0x1D, 1), (0x1C, 2), (0x20, 2), (0x22, 2), (0x20, 4), (0x24, 2), (0x26, 2), (0x24, 4), (0x28, 4),
    (0x2C, 4), (0x30, 2), (0x32, 2), (0x30, 4)]

/-- The registers of `c` show the written bytes `m`, the read-only nibbles apart. -/
structure Shows (c₀ c : ConfigClass) (m : Bytes) : Prop where
  memoryBase : c.storage1.memoryBase.toNat / 16 = readLE m 0x20 2 / 16
  memoryLimit : c.storage1.memoryLimit.toNat / 16 = readLE m 0x22 2 / 16
  prefetchableBase : c.storage1.prefetchableMemoryBase.toNat / 16 = readLE m 0x24 2 / 16
  prefetchableLimit : c.storage1.prefetchableMemoryLimit.toNat / 16 = readLE m 0x26 2 / 16
  baseUpper : c.storage1.prefetchableMemoryBaseUpper.toNat = readLE m 0x28 4
  limitUpper : c.storage1.prefetchableMemoryLimitUpper.toNat = readLE m 0x2C 4
  ioBase : c.storage1.ioBase.toNat / 16 = readLE m 0x1C 1 / 16
  ioLimit : c.storage1.ioLimit.toNat / 16 = readLE m 0x1D 1 / 16
  ioBaseUpper : c.storage1.ioBaseUpper = c₀.storage1.ioBaseUpper
  ioLimitUpper : c.storage1.ioLimitUpper = c₀.storage1.ioLimitUpper

theorem shows_data (c : ConfigClass) : Shows c c c.storage1.data := by
  constructor
  all_goals simp [readLE, Header.data, Header.registers, range_succ, byteOf]
  · have := c.storage1.memoryBase.toNat_lt
    omega
  · have := c.storage1.memoryLimit.toNat_lt
    omega
  · have := c.storage1.prefetchableMemoryBase.toNat_lt
    omega
  · have := c.storage1.prefetchableMemoryLimit.toNat_lt
    omega
  · have := c.storage1.prefetchableMemoryBaseUpper.toNat_lt
    omega
  · have := c.storage1.prefetchableMemoryLimitUpper.toNat_lt
    omega

theorem shift_merge {n : Nat} (v o : BitVec n) {m k : BitVec n} (hm : m >>> 4 = 0)
    (hk : k >>> 4 = 0) :
    ((v &&& ~~~m) ||| (o &&& k)) >>> 4 = v >>> 4 := by
  have low {b : BitVec n} (hb : b >>> 4 = 0) i : b.getLsbD (4 + i) = false := by
    simpa using congrArg (BitVec.getLsbD · i) hb
  apply BitVec.eq_of_getLsbD_eq
  intro i hi
  simp only [BitVec.getLsbD_ushiftRight, BitVec.getLsbD_or, BitVec.getLsbD_and, BitVec.getLsbD_not, low hm, low hk]
  simpa using BitVec.lt_of_getLsbD

theorem merge16_div :
    (merge16 0xF 0xF v o).toNat / 16 = v.toNat / 16 ∧
    (merge16 0xF 0 v o).toNat / 16 = v.toNat / 16 := by
  have h (k : BitVec 16) (hk : k >>> 4 = 0) :=
    congrArg BitVec.toNat (shift_merge v.toBitVec o.toBitVec (m := 0xF) rfl hk)
  simpa [merge16, Nat.shiftRight_eq_div_pow] using And.intro (h 0xF rfl) (h 0 rfl)

theorem merge8_div (v o : UInt8) : (merge8 0xF v o).toNat / 16 = v.toNat / 16 := by
  have h := congrArg BitVec.toNat (shift_merge v.toBitVec o.toBitVec (m := 0xF) (k := 0xF) rfl rfl)
  simpa [merge8, Nat.shiftRight_eq_div_pow] using h

theorem Shows.write {c₀ : ConfigClass} {m : Bytes} (h : Shows c₀ c m)
    (hs : (w.addr % 4096, w.size) ∈ supported) : ∃ c', (writeConfig c w).map Prod.fst = .ok c' ∧
      Shows c₀ c' (writeLE m (w.addr % 4096) w.size w.data.toNat) := by
  obtain ⟨addr, size, v⟩ := w
  generalize ho : addr % 4096 = o at *
  simp only [supported, mem_cons, Prod.mk.injEq, not_mem_nil, or_false] at hs
  obtain ⟨h1, h2, h3, h4, h5, h6, h7, h8, h9, h10⟩ := h
  rcases hs with ⟨rfl, rfl⟩ | ⟨rfl, rfl⟩ | ⟨rfl, rfl⟩ | ⟨rfl, rfl⟩ | ⟨rfl, rfl⟩ | ⟨rfl, rfl⟩ | ⟨rfl, rfl⟩ |
    ⟨rfl, rfl⟩ | ⟨rfl, rfl⟩ | ⟨rfl, rfl⟩ | ⟨rfl, rfl⟩ | ⟨rfl, rfl⟩ | ⟨rfl, rfl⟩ | ⟨rfl, rfl⟩
  all_goals
    simp only [writeConfig, ho, isWritable, writeConfig1, writeConfig2, writeConfig4, Except.map]
    refine ⟨_, rfl, ?_⟩
    constructor
    -- a register is written by this write, with its low nibble masked, or keeps its bytes
    all_goals simp +arith [readLE_writeLE_of_disjoint, readLE_writeLE_sub, merge8_div, merge16_div,
      Nat.shiftRight_eq_div_pow, *]
  omega

/-- The bytes of the header after a sequence of writes to plain memory. -/
def bytes (m : Bytes) (ws : List ConfigWrite) : Bytes :=
  ws.foldl (fun m w => writeLE m (w.addr % 4096) w.size w.data.toNat) m

theorem Shows.writes {c₀ : ConfigClass} {m : Bytes} (h : Shows c₀ c m) (ws : List ConfigWrite)
    (hs : ∀ w ∈ ws, (w.addr % 4096, w.size) ∈ supported) :
    ∃ c', ws.foldlM (fun c w => (writeConfig c w).map Prod.fst) c = .ok c' ∧
      Shows c₀ c' (bytes m ws) := by
  induction ws generalizing c m with
  | nil => exact ⟨c, rfl, h⟩
  | cons w ws ih =>
    obtain ⟨hw, hws⟩ := forall_mem_cons.1 hs
    obtain ⟨c₁, h₁, hm⟩ := h.write hw
    rw [foldlM_cons, h₁]
    exact ih hm hws

theorem or_ones {y k : Nat} (n x : Nat) (hk : k + 1 = 2 ^ n) (hy : y = 2 ^ n * x) :
    y ||| k = y + k := by
  rw [hy, Nat.two_pow_add_eq_or_of_lt (by omega)]

theorem memoryWindow_eq (c : ConfigClass) :
    getMemoryBase c = 2 ^ 20 * (c.storage1.memoryBase.toNat / 16) ∧
      getMemoryLimit c = 2 ^ 20 * (c.storage1.memoryLimit.toNat / 16) + 0xFFFFF := by
  have hb := c.storage1.memoryBase.toNat_lt
  have hl := c.storage1.memoryLimit.toNat_lt
  simp [getMemoryBase, getMemoryLimit, Nat.shiftRight_eq_div_pow, Nat.shiftLeft_eq]
  rw [or_ones 20 (c.storage1.memoryLimit.toNat / 16) rfl (by omega)]
  omega

theorem ioWindow_eq (c : ConfigClass) :
    getIOBase c = 2 ^ 16 * c.storage1.ioBaseUpper.toNat + 2 ^ 12 * (c.storage1.ioBase.toNat / 16) ∧
      getIOLimit c = 2 ^ 16 * c.storage1.ioLimitUpper.toNat +
        2 ^ 12 * (c.storage1.ioLimit.toNat / 16) + 0xFFF := by
  have hb := c.storage1.ioBase.toNat_lt
  have hl := c.storage1.ioLimit.toNat_lt
  have hbu := c.storage1.ioBaseUpper.toNat_lt
  have hlu := c.storage1.ioLimitUpper.toNat_lt
  simp [getIOBase, getIOLimit, Nat.shiftRight_eq_div_pow, Nat.shiftLeft_eq]
  rw [or_ones 12 (16 * c.storage1.ioLimitUpper.toNat + c.storage1.ioLimit.toNat / 16) rfl (by omega)]
  omega

theorem sext_eq {x : UInt16} (h : x.toNat < 2 ^ 15) :
    (sext ((x >>> 4).toUInt32 * 1048576)).toNat = 2 ^ 20 * (x.toNat / 16) := by
  have hx : ((x >>> 4).toUInt32 * 1048576).toNat = 2 ^ 20 * (x.toNat / 16) := by
    simp [Nat.shiftRight_eq_div_pow]
    omega
  have hlt : (x >>> 4).toUInt32 * 1048576 < 0x80000000 := by
    rw [UInt32.lt_iff_toNat_lt]
    simp
    omega
  rw [sext, if_pos hlt, UInt32.toNat_toUInt64, hx]

theorem prefetchableBase_eq (h : c.storage1.prefetchableMemoryBase.toNat < 2 ^ 15) :
    getPrefetchableMemoryBase c = 2 ^ 32 * c.storage1.prefetchableMemoryBaseUpper.toNat +
      2 ^ 20 * (c.storage1.prefetchableMemoryBase.toNat / 16) := by
  have hu := c.storage1.prefetchableMemoryBaseUpper.toNat_lt
  rw [getPrefetchableMemoryBase, UInt64.toNat_add, sext_eq h]
  simp [Nat.shiftLeft_eq]
  omega

theorem prefetchableLimit_eq (h : c.storage1.prefetchableMemoryLimit.toNat < 2 ^ 15)
    (hu : c.storage1.prefetchableMemoryLimitUpper.toNat < 2 ^ 16) :
    getPrefetchableMemoryLimit c = 2 ^ 32 * c.storage1.prefetchableMemoryLimitUpper.toNat +
      2 ^ 20 * (c.storage1.prefetchableMemoryLimit.toNat / 16) + 0xFFFFF := by
  rw [getPrefetchableMemoryLimit, UInt64.toNat_or, UInt64.toNat_add, sext_eq h]
  simp [Nat.shiftLeft_eq]
  rw [or_ones 20 (2 ^ 12 * c.storage1.prefetchableMemoryLimitUpper.toNat +
    c.storage1.prefetchableMemoryLimit.toNat / 16) rfl (by omega)]
  omega

/-- **Windows.** After any writes of supported widths the windows are those of the bytes written. -/
theorem windows_decode (c : ConfigClass) (ws : List ConfigWrite)
    (hs : ∀ w ∈ ws, (w.addr % 4096, w.size) ∈ supported) :
    ∃ c', ws.foldlM (fun c w => (writeConfig c w).map Prod.fst) c = .ok c' ∧
      let m := bytes c.storage1.data ws
      getMemoryBase c' = 2 ^ 20 * (readLE m 0x20 2 / 16) ∧
      getMemoryLimit c' = 2 ^ 20 * (readLE m 0x22 2 / 16) + 0xFFFFF ∧
      (readLE m 0x24 2 < 2 ^ 15 →
        getPrefetchableMemoryBase c' = 2 ^ 32 * readLE m 0x28 4 + 2 ^ 20 * (readLE m 0x24 2 / 16)) ∧
      (readLE m 0x26 2 < 2 ^ 15 → readLE m 0x2C 4 < 2 ^ 16 →
        getPrefetchableMemoryLimit c' =
          2 ^ 32 * readLE m 0x2C 4 + 2 ^ 20 * (readLE m 0x26 2 / 16) + 0xFFFFF) ∧
      getIOBase c' = 2 ^ 16 * c.storage1.ioBaseUpper.toNat + 2 ^ 12 * (readLE m 0x1C 1 / 16) ∧
      getIOLimit c' = 2 ^ 16 * c.storage1.ioLimitUpper.toNat + 2 ^ 12 * (readLE m 0x1D 1 / 16) + 0xFFF := by
  obtain ⟨c', hc', h⟩ := (shows_data c).writes ws hs
  refine ⟨c', hc', ?_⟩
  simp only [memoryWindow_eq, ioWindow_eq, ← h.memoryBase, ← h.memoryLimit, ← h.baseUpper, ← h.limitUpper,
    ← h.prefetchableBase, ← h.prefetchableLimit, ← h.ioBase, ← h.ioLimit, h.ioBaseUpper, h.ioLimitUpper,
    true_and, and_true]
  constructor
  · intro h15
    have := h.prefetchableBase
    exact prefetchableBase_eq (by omega)
  · intro h15 hu
    have := h.prefetchableLimit
    exact prefetchableLimit_eq (by omega) hu

/-- The memory window and a prefetchable window above 4 GiB are programmed. -/
def windowWrites : List ConfigWrite :=
  [⟨0x20, 4, 0x9FF08000⟩, ⟨0x24, 4, 0x7FF04000⟩, ⟨0x28, 4, 1⟩, ⟨0x2C, 4, 2⟩]

theorem windows_decode_memory :
    ∃ c', windowWrites.foldlM (fun c w => (writeConfig c w).map Prod.fst) (rootComplexPort 0x9c90) =
        .ok c' ∧
      getMemoryBase c' = 0x80000000 ∧ getMemoryLimit c' = 0x9FFFFFFF ∧
      getPrefetchableMemoryBase c' = 0x140000000 ∧ getPrefetchableMemoryLimit c' = 0x27FFFFFFF := by
  obtain ⟨c', hc', hbase, hlimit, hpbase, hplimit, -⟩ :=
    windows_decode (rootComplexPort 0x9c90) windowWrites (by decide)
  exact ⟨c', hc', hbase, hlimit, hpbase (by decide), hplimit (by decide) (by decide)⟩

/-- The base takes the 32-bit upper half, the limit 16 bits of it; bit 15 of the base is a sign. -/
theorem prefetchable_truncated :
    (writeConfig (rootComplexPort 0x9c90) ⟨0x28, 4, 0x10000⟩).map
        (getPrefetchableMemoryBase ·.1) = .ok (2 ^ 48) ∧
      (writeConfig (rootComplexPort 0x9c90) ⟨0x2C, 4, 0x10000⟩).map
        (getPrefetchableMemoryLimit ·.1) = .ok 0xFFFFF ∧
      (writeConfig (rootComplexPort 0x9c90) ⟨0x24, 2, 0x8000⟩).map (getPrefetchableMemoryBase ·.1) =
        .ok 0xFFFFFFFF80000000 := by
  decide

end Gem5Cxl.L3.BridgeRegisters
