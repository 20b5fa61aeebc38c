import Mathlib.Data.List.Sort
import Gem5Cxl.Core.Bytes
import Gem5Cxl.L1Message.Packet

/-!
# Configuration space of a bridge port (`config_class`) and address decoding

Each root port of a `PciBridge` has a PCI-to-PCI bridge header whose base and
limit registers describe three windows: memory, prefetchable memory, I/O.
Software programs them with `writeConfig`. Two functions read them back, and
they are written independently of each other:

* `fillRanges`, for the ranges the upstream slave port advertises: a window
  counts once its base *and* limit have been written (`valid_*`), the base is
  below the limit and not 0; the two BARs count as well.
* `getMasterPort`, for the port a request leaves by: a window counts when base
  and limit are both nonzero, and the BARs are not looked at. Ports are tried in
  order 1, 2, 3, then the ranges their peers report, then the DMA port.

Registers have the source's widths. Two places deserve attention: the
prefetchable windows multiply in `int`, which is taken to wrap and sign-extend
(`sext`); and the upper half of the prefetchable limit is read into a
`uint16_t`.

All functions mirror mem/PciBridge.cc and mem/PciBridge.hh. Byte order is that
of a little-endian host. `writeConfig` never changes the capability structure,
since it asks for an offset below 20 and above 27; `write` has that test too.
-/
namespace Gem5Cxl.L2.ConfigSpace

open Core L1

/-! ## Registers -/

/-- The 64-byte header `storage1`. mirrors PciBridge.hh:95-136 -/
structure Header where
  vendorId : UInt16 := 0
  deviceId : UInt16 := 0
  command : UInt16 := 0
  status : UInt16 := 0
  revision : UInt8 := 0
  progIF : UInt8 := 0
  subClassCode : UInt8 := 0
  classCode : UInt8 := 0
  cacheLineSize : UInt8 := 0
  latencyTimer : UInt8 := 0
  headerType : UInt8 := 1
  bist : UInt8 := 0
  bar0 : UInt32 := 0
  bar1 : UInt32 := 0
  primaryBusNumber : UInt8 := 0
  secondaryBusNumber : UInt8 := 0
  subordinateBusNumber : UInt8 := 0
  secondaryLatencyTimer : UInt8 := 0
  ioBase : UInt8 := 0x01
  ioLimit : UInt8 := 0x01
  secondaryStatus : UInt16 := 0
  memoryBase : UInt16 := 0
  memoryLimit : UInt16 := 0
  prefetchableMemoryBase : UInt16 := 0
  prefetchableMemoryLimit : UInt16 := 0
  prefetchableMemoryBaseUpper : UInt32 := 0
  prefetchableMemoryLimitUpper : UInt32 := 0
  ioBaseUpper : UInt16 := 0x2f00
  ioLimitUpper : UInt16 := 0x2f00
  capabilityPointer : UInt8 := 0
  expansionROMBaseAddress : UInt32 := 0
  interruptLine : UInt8 := 0
  interruptPin : UInt8 := 0
  bridgeControl : UInt16 := 0
deriving DecidableEq, Repr

/-- `config_class`; the header's defaults are those of PciBridge.py:26-79
and the flags start as `initialize_ports` (PciBridge.cc:118-187) sets them. -/
structure ConfigClass where
  storage1 : Header := {}
  barsize0 : UInt32 := 0
  barsize1 : UInt32 := 0
  barflags0 : UInt32 := 0
  barflags1 : UInt32 := 0
  pxcapBaseOffset : Nat := 0
  isValid : Bool := false
  validIoBase : Bool := false
  validIoLimit : Bool := false
  validPrefetchableMemoryBase : Bool := false
  validPrefetchableMemoryLimit : Bool := false
  validMemoryBase : Bool := false
  validMemoryLimit : Bool := false
deriving DecidableEq, Repr

/-- A root port of the `Root_Complex` as configured. mirrors PciBridge.py:116-160 -/
def rootComplexPort (deviceId : UInt16) : ConfigClass :=
  { storage1 :=
      { vendorId := 0x8086, deviceId := deviceId, classCode := 0x06, subClassCode := 0x04
        command := 0x0407, status := 0x0010, interruptPin := 0x01, interruptLine := 0x20
        capabilityPointer := 0xD0 }
    pxcapBaseOffset := 0xD0 }

/-! ## Writing -/

/-- Read-only offsets. mirrors PciBridge.cc:540-545 -/
def isWritable (offset : Nat) : Bool :=
  !([0x00, 0x02, 0x08, 0x09, 0x0A, 0x0B, 0x0C, 0x0D, 0x0E, 0x1B, 0x34, 0x3D].contains offset)

/-- `(val & ~mask) | (old & mask)` -/
def merge8 (mask val old : UInt8) : UInt8 := (val &&& ~~~mask) ||| (old &&& mask)

/-- `(val & ~mask) | (old & keep)`; most writes use one mask for both. -/
def merge16 (mask keep val old : UInt16) : UInt16 := (val &&& ~~~mask) ||| (old &&& keep)

variable (c : ConfigClass)

/-- The 1-byte cases; the flag says whether the ranges change.
mirrors PciBridge.cc:621-654 -/
def writeConfig1 (offset : Nat) (v : UInt8) : ConfigClass × Bool :=
  let h := c.storage1
  match offset with
  | 0x18 => ({ c with storage1 := { h with primaryBusNumber := v } }, false)
  | 0x19 => ({ c with storage1 := { h with secondaryBusNumber := v }, isValid := true }, false)
  | 0x1A => ({ c with storage1 := { h with subordinateBusNumber := v } }, false)
  | 0x1C =>
    ({ c with storage1 := { h with ioBase := merge8 0x0F v h.ioBase }, validIoBase := true }, true)
  | 0x1D =>
    ({ c with storage1 := { h with ioLimit := merge8 0x0F v h.ioLimit }, validIoLimit := true },
      true)
  | 0x3C => ({ c with storage1 := { h with interruptLine := v } }, false)
  | 0x0F => ({ c with storage1 := { h with bist := v } }, false)
  | _ => (c, false)

/-- The 2-byte cases. Command, Status and Secondary Status take only the low
byte (`getLE<uint8_t>`); the upper I/O registers only set the flags; the
prefetchable limit keeps bits by the *base* mask, which is 0.
mirrors PciBridge.cc:655-740 -/
def writeConfig2 (offset : Nat) (v : UInt16) : ConfigClass × Bool :=
  let h := c.storage1
  match offset with
  | 0x04 => ({ c with storage1 := { h with command := (v &&& 0xFF) ||| 0x0400 } }, false)
  | 0x06 => ({ c with storage1 := { h with status := v &&& 0xFF } }, false)
  | 0x1E => ({ c with storage1 := { h with secondaryStatus := v &&& 0xFF } }, false)
  | 0x20 =>
    ({ c with
      storage1 := { h with memoryBase := merge16 0x000F 0x000F v h.memoryBase }
      validMemoryBase := true }, true)
  | 0x22 =>
    ({ c with
      storage1 := { h with memoryLimit := merge16 0x000F 0x000F v h.memoryLimit }
      validMemoryLimit := true }, true)
  | 0x24 =>
    ({ c with
      storage1 :=
        { h with prefetchableMemoryBase := merge16 0x0000 0x0000 v h.prefetchableMemoryBase }
      validPrefetchableMemoryBase := true }, true)
  | 0x26 =>
    ({ c with
      storage1 :=
        { h with prefetchableMemoryLimit := merge16 0x000F 0x0000 v h.prefetchableMemoryLimit }
      validPrefetchableMemoryLimit := true }, true)
  | 0x30 => ({ c with validIoBase := true }, true)
  | 0x32 => ({ c with validIoLimit := true }, true)
  | 0x3E => ({ c with storage1 := { h with bridgeControl := v } }, false)
  | 0x1C =>
    ({ c with
      storage1 := { h with
        ioBase := merge8 0x0F v.toUInt8 h.ioBase
        ioLimit := merge8 0x0F (v >>> 8).toUInt8 h.ioLimit }
      validIoBase := true, validIoLimit := true }, true)
  | _ => (c, false)

/-- A BAR after a write: all ones asks for the size (`sizing`), anything else
sets the base. Bit 0 of the register tells an I/O BAR from a memory BAR.
mirrors PciBridge.cc:760-829 -/
def writeBar (sizingIo size bar v : UInt32) : UInt32 :=
  let keep := if bar &&& 1 = 0 then 0x0000000F else 0x00000001
  let sizing := if bar &&& 1 = 0 then ~~~(size - 1) else sizingIo
  if v = 0xFFFFFFFF then sizing ||| (bar &&& keep) else (v &&& ~~~(size - 1)) ||| (bar &&& keep)

/-- The 4-byte cases. The two BARs differ in the size an I/O BAR reports:
`~size - 1` for BAR 0, `~(size - 1)` for BAR 1.
mirrors PciBridge.cc:743-882 -/
def writeConfig4 (offset : Nat) (v : UInt32) : ConfigClass × Bool :=
  let h := c.storage1
  let lo := v.toUInt16
  let hi := (v >>> 16).toUInt16
  match offset with
  | 0x38 => ({ c with storage1 := { h with expansionROMBaseAddress := 0 } }, false)
  | 0x28 =>
    ({ c with
      storage1 := { h with prefetchableMemoryBaseUpper := v }
      validPrefetchableMemoryBase := true }, true)
  | 0x2C =>
    ({ c with
      storage1 := { h with prefetchableMemoryLimitUpper := v }
      validPrefetchableMemoryLimit := true }, true)
  | 0x10 =>
    ({ c with
      storage1 := { h with bar0 := writeBar (~~~c.barsize0 - 1) c.barsize0 h.bar0 v }
      barflags0 := if v = 0xFFFFFFFF then c.barflags0 else 1 }, v ≠ 0xFFFFFFFF)
  | 0x14 =>
    ({ c with
      storage1 := { h with bar1 := writeBar (~~~(c.barsize1 - 1)) c.barsize1 h.bar1 v }
      barflags1 := if v = 0xFFFFFFFF then c.barflags1 else 1 }, v ≠ 0xFFFFFFFF)
  | 0x20 =>
    ({ c with
      storage1 := { h with
        memoryBase := merge16 0x000F 0x000F lo h.memoryBase
        memoryLimit := merge16 0x000F 0x000F hi h.memoryLimit }
      validMemoryBase := true, validMemoryLimit := true }, true)
  | 0x30 => ({ c with validIoBase := true, validIoLimit := true }, true)
  | 0x24 =>
    ({ c with
      storage1 := { h with
        prefetchableMemoryBase := merge16 0x0000 0x0000 lo h.prefetchableMemoryBase
        prefetchableMemoryLimit := merge16 0x000F 0x0000 hi h.prefetchableMemoryLimit }
      validPrefetchableMemoryBase := true, validPrefetchableMemoryLimit := true }, true)
  | 0x04 => ({ c with storage1 := { h with command := lo, status := hi } }, false)
  | 0x18 =>
    ({ c with
      storage1 := { h with
        primaryBusNumber := v.toUInt8
        secondaryBusNumber := (v >>> 8).toUInt8
        subordinateBusNumber := (v >>> 16).toUInt8
        secondaryLatencyTimer := (v >>> 24).toUInt8 }
      isValid := true }, false)
  | _ => (c, false)

/-- A config write packet: address, size in bytes, payload read little-endian. -/
structure ConfigWrite where
  addr : Nat
  size : Nat
  data : UInt32
deriving DecidableEq, Repr

/-- `config_class::writeConfig`; the flag says whether a range change is sent.
mirrors PciBridge.cc:592-920 -/
def writeConfig (w : ConfigWrite) : Except Fault (ConfigClass × Bool) :=
  let offset := w.addr % 4096
  if offset < 64 then
    if isWritable offset then
      match w.size with
      | 1 => .ok (writeConfig1 c offset w.data.toUInt8)
      | 2 => .ok (writeConfig2 c offset w.data.toUInt16)
      | 4 => .ok (writeConfig4 c offset w.data)
      | _ => .error (.panic "invalid access size\n")
    else .ok (c, false)
  else if c.pxcapBaseOffset ≤ offset ∧ offset < c.pxcapBaseOffset + 36 then .ok (c, false)
  else .error (.panic "out of range access to pcie config space\n")

/-! ## Bytes -/

/-- The registers with their sizes, in the order of the header. -/
def Header.registers (h : Header) : List (Nat × Nat) :=
  [(2, h.vendorId.toNat), (2, h.deviceId.toNat), (2, h.command.toNat), (2, h.status.toNat),
    (1, h.revision.toNat), (1, h.progIF.toNat), (1, h.subClassCode.toNat), (1, h.classCode.toNat),
    (1, h.cacheLineSize.toNat), (1, h.latencyTimer.toNat), (1, h.headerType.toNat), (1, h.bist.toNat),
    (4, h.bar0.toNat), (4, h.bar1.toNat), (1, h.primaryBusNumber.toNat), (1, h.secondaryBusNumber.toNat),
    (1, h.subordinateBusNumber.toNat), (1, h.secondaryLatencyTimer.toNat), (1, h.ioBase.toNat), (1, h.ioLimit.toNat),
    (2, h.secondaryStatus.toNat), (2, h.memoryBase.toNat), (2, h.memoryLimit.toNat),
    (2, h.prefetchableMemoryBase.toNat), (2, h.prefetchableMemoryLimit.toNat),
    (4, h.prefetchableMemoryBaseUpper.toNat), (4, h.prefetchableMemoryLimitUpper.toNat),
    (2, h.ioBaseUpper.toNat), (2, h.ioLimitUpper.toNat), (1, h.capabilityPointer.toNat), (3, 0),
    (4, h.expansionROMBaseAddress.toNat), (1, h.interruptLine.toNat), (1, h.interruptPin.toNat),
    (2, h.bridgeControl.toNat)]

/-- `storage1.data`; what lies behind it is not modelled. -/
def Header.data (h : Header) : Bytes := fun i =>
  ((h.registers.flatMap fun r => (List.range r.1).map (byteOf r.2))[i]?).getD 0

/-- mirrors PciBridge.cc:550-590 -/
def readConfig (storage2 : Bytes) (addr size : Nat) : Except Fault Nat :=
  let offset := addr % 4096
  if size = 1 ∨ size = 2 ∨ size = 4 then
    .ok (if offset < 64 then readLE c.storage1.data offset size
      else if c.pxcapBaseOffset ≤ offset ∧ offset < c.pxcapBaseOffset + 36 then
        readLE storage2 (offset - c.pxcapBaseOffset) size
      else 0)
  else .error (.panic "invalid access size\n")

/-- A write to the capability structure; the slot registers are at 20 to 27.
mirrors PciBridge.cc:892-905 -/
def writeCapability (storage2 : Bytes) (offset size : Nat) (v : UInt32) : Except Fault Bytes :=
  if offset < 20 ∧ 27 < offset then
    if size = 1 ∨ size = 2 ∨ size = 4 then .ok (writeLE storage2 offset size v.toNat)
    else .error (.panic "invalid access size\n")
  else .ok storage2

/-- `writeConfig` on the header and the capability structure. -/
def write (s : ConfigClass × Bytes) (w : ConfigWrite) : Except Fault (ConfigClass × Bytes) := do
  let (c, _) ← writeConfig s.1 w
  if w.addr % 4096 < 64 then .ok (c, s.2)
  else
    let storage2 ← writeCapability s.2 (w.addr % 4096 - c.pxcapBaseOffset) w.size w.data
    .ok (c, storage2)

/-! ## Reading the windows (`PciBridge.cc:258-341`) -/

def getBar0 : Nat := (c.storage1.bar0 &&& ~~~(c.barsize0 - 1)).toNat

def getBar1 : Nat := (c.storage1.bar1 &&& ~~~(c.barsize1 - 1)).toNat

def getIOBase : Nat :=
  ((c.storage1.ioBaseUpper.toUInt32 <<< 16) + (c.storage1.ioBase >>> 4).toUInt32 * 4096).toNat

def getIOLimit : Nat :=
  (((c.storage1.ioLimitUpper.toUInt32 <<< 16) + (c.storage1.ioLimit >>> 4).toUInt32 * 4096) |||
    0x00000FFF).toNat

def getMemoryBase : Nat :=
  ((c.storage1.memoryBase >>> 4).toUInt32 <<< 20).toNat

def getMemoryLimit : Nat :=
  (((c.storage1.memoryLimit >>> 4).toUInt32 <<< 20) ||| 0x000FFFFF).toNat

/-- A negative `int` added to a `uint64_t` is sign-extended first. -/
def sext (x : UInt32) : UInt64 :=
  if x < 0x80000000 then x.toUInt64 else x.toUInt64 ||| 0xFFFFFFFF00000000

def getPrefetchableMemoryBase : Nat :=
  ((c.storage1.prefetchableMemoryBaseUpper.toUInt64 <<< 32) +
    sext ((c.storage1.prefetchableMemoryBase >>> 4).toUInt32 * 1048576)).toNat

def getPrefetchableMemoryLimit : Nat :=
  (((c.storage1.prefetchableMemoryLimitUpper.toUInt16.toUInt64 <<< 32) +
    sext ((c.storage1.prefetchableMemoryLimit >>> 4).toUInt32 * 1048576)) ||| 0x000FFFFF).toNat

/-! ## Address ranges -/

/-- `AddrRange` without interleaving: `[start, stop)`. -/
structure AddrRange where
  start : Nat
  stop : Nat
deriving DecidableEq, Repr

def AddrRange.contains (r : AddrRange) (a : Nat) : Bool := r.start ≤ a && a < r.stop

theorem AddrRange.contains_iff (r : AddrRange) (a : Nat) :
    r.contains a = true ↔ r.start ≤ a ∧ a < r.stop := by
  simp [AddrRange.contains]

/-- mirrors base/addr_range.hh:821-825 -/
def rangeIn (start stop : Nat) : AddrRange := ⟨start, (stop + 1) % 2 ^ 64⟩

/-- mirrors base/addr_range.hh:830-834 -/
def rangeSize (start size : Nat) : AddrRange := ⟨start, (start + size) % 2 ^ 64⟩

/-- A window as the two decoders see it. -/
structure Window where
  base : Nat
  limit : Nat
  valid : Bool
deriving DecidableEq, Repr

/-- The memory, prefetchable and I/O windows, in the order both decoders use. -/
def windows : List Window :=
  [⟨getMemoryBase c, getMemoryLimit c, c.validMemoryBase && c.validMemoryLimit⟩,
    ⟨getPrefetchableMemoryBase c, getPrefetchableMemoryLimit c,
      c.validPrefetchableMemoryBase && c.validPrefetchableMemoryLimit⟩,
    ⟨getIOBase c, getIOLimit c, c.validIoBase && c.validIoLimit⟩]

/-- `fill_ranges` advertises the window. -/
def Window.declared (w : Window) : Bool := w.valid && w.base < w.limit && w.base ≠ 0

/-- `getMasterPort` finds the address in the window. -/
def Window.decodes (w : Window) (a : Nat) : Bool :=
  w.base ≤ a && a ≤ w.limit && w.base ≠ 0 && w.limit ≠ 0

theorem Window.declared_iff (w : Window) :
    w.declared = true ↔ w.valid = true ∧ w.base < w.limit ∧ w.base ≠ 0 := by
  simp [Window.declared, and_assoc]

theorem Window.decodes_iff (w : Window) (a : Nat) :
    w.decodes a = true ↔ w.base ≤ a ∧ a ≤ w.limit ∧ w.base ≠ 0 ∧ w.limit ≠ 0 := by
  simp [Window.decodes, and_assoc]

/-- The ranges of the BARs. mirrors PciBridge.cc:1676-1688 -/
def barRanges : List AddrRange :=
  (if c.barsize0 ≠ 0 ∧ getBar0 c ≠ 0 then [rangeSize (getBar0 c) c.barsize0.toNat] else []) ++
    (if c.barsize1 ≠ 0 ∧ getBar1 c ≠ 0 then [rangeSize (getBar1 c) c.barsize1.toNat] else [])

/-- `fill_ranges`. mirrors PciBridge.cc:1655-1712 -/
def fillRanges : List AddrRange :=
  barRanges c ++ ((windows c).filter Window.declared).map fun w => rangeIn w.base w.limit

/-- The ranges of a port after `ranges.sort()`. -/
def sortedRanges : List AddrRange :=
  (fillRanges c).mergeSort fun r s => decide (r.start ≤ s.start)

/-- The sweep of a downstream slave port over its sorted ranges, from `last_val` on.
mirrors PciBridge.cc:1837-1848 -/
def sweep : Nat → List AddrRange → List AddrRange
  | lastVal, [] => if lastVal = 0 then [] else [rangeIn lastVal (2 ^ 64 - 1)]
  | lastVal, r :: rs =>
    (if lastVal < r.start then [rangeIn lastVal (r.start - 1)] else []) ++ sweep ((r.stop + 1) % 2 ^ 64) rs

/-- `getAddrRanges` of a downstream slave port. mirrors PciBridge.cc:1716-1855 -/
def downstreamRanges : List AddrRange := sweep 0 (sortedRanges c)

/-! ## The bridge's ports -/

inductive RootPort | one | two | three
deriving DecidableEq, Repr

/-- `masterPort1` to `masterPort3`, and `masterPort_DMA`. -/
inductive MasterPort | root (k : RootPort) | dma
deriving DecidableEq, Repr

/-- What address decoding reads: the configuration of the three root ports and
the ranges that their peers report. -/
structure Decoder where
  port : RootPort → ConfigClass
  peer : RootPort → List AddrRange

/-- One port's three window tests in `getMasterPort`. -/
def decodes (c : ConfigClass) (a : Nat) : Bool := (windows c).any (·.decodes a)

/-- `PciBridge::getMasterPort`. mirrors PciBridge.cc:386-458 -/
def getMasterPort (d : Decoder) (a : Nat) : MasterPort :=
  if decodes (d.port .one) a then .root .one
  else if decodes (d.port .two) a then .root .two
  else if decodes (d.port .three) a then .root .three
  else if (d.peer .one).any (·.contains a) then .root .one
  else if (d.peer .two).any (·.contains a) then .root .two
  else if (d.peer .three).any (·.contains a) then .root .three
  else .dma

/-- `getAddrRanges` of the upstream slave port of a bridge that is not a
switch. mirrors PciBridge.cc:1716-1838 -/
def getAddrRanges (d : Decoder) : List AddrRange :=
  (fillRanges (d.port .one) ++ fillRanges (d.port .two) ++ fillRanges (d.port .three)).mergeSort
    fun r s => decide (r.start ≤ s.start)

def Decoder.write (d : Decoder) (k : RootPort) (w : ConfigWrite) : Except Fault Decoder := do
  let (c, _) ← writeConfig (d.port k) w
  .ok { d with port := Function.update d.port k c }

def Decoder.writes (d : Decoder) (ws : List (RootPort × ConfigWrite)) : Except Fault Decoder :=
  ws.foldlM (fun d w => d.write w.1 w.2) d

/-- The root complex before any config write; its peers report `peer`. -/
def rootComplex (peer : RootPort → List AddrRange) : Decoder where
  port
    | .one => rootComplexPort 0x9c90
    | .two => rootComplexPort 0x9c92
    | .three => rootComplexPort 0x9c94
  peer := peer

/-- A root complex with the CXL device, its registers and its memory, behind
root port `k`. -/
def withDevice (k : RootPort) : Decoder :=
  rootComplex fun j =>
    if j = k then [⟨0x15000000, 0x15040000⟩, ⟨0x80000000, 0xA0000000⟩] else []

end Gem5Cxl.L2.ConfigSpace
