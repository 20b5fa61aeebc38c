import Gem5Cxl.Core.Lts
import Gem5Cxl.L2Machine.ConfigSpace

/-!
# PCI endpoints (`dev/pci/device.cc`, `dev/pci/device.hh`)

A `PciDevice` has a configuration space of 4 KiB (`config`), six base address
registers with a decoder each (`BARs`), and a helper `config_tool` through which
it writes the capability space.

* `readConfig`, `writeConfig`: the accesses of software. Below 0x40 a write
  goes to the header, through three switch statements for the three sizes; from
  0x40 on it goes through `config_tool`.
* `PCIConfigTool`: it has a reference member `config` and a constructor whose
  parameter, taken by value, has the same name. In the initializer
  `config(config)` the argument is the parameter, so the reference outlives its
  object (`ConfigRef`).
* `writeBar`, `getAddrRanges`: a 4-byte write to a base address register goes to
  its decoder, and the bus is told the ranges (`sendRangeChange`). `notified` is
  the list the bus was told last.

Numbers are little-endian on both sides, so `htole` and `letoh` are the
identity. Fields are named by their offsets in the union `PCIConfig`
(dev/pci/pcireg.h:67-104). The legacy I/O decoder, MSI and power management
structures, `serialize` and timing are left out.
-/
namespace Gem5Cxl.L2

open Core L1 L2.ConfigSpace

/-! ## Decoders -/

/-- `PciHost::DeviceInterface`: where the host maps I/O and memory addresses. -/
structure PciHost where
  pioAddr : Nat → Nat
  memAddr : Nat → Nat

/-- mirrors device.hh:79-274 -/
inductive PciBar
  | none
  | io (size addr : Nat)
  | mem (size addr : Nat) (wide : Bool) (lower upper : Nat)
  | memUpper
deriving DecidableEq, Repr

namespace PciBar

/-- `val & ~(_size - 1)` in a register of 32 bits. -/
def masked (size val : Nat) : Nat := (val &&& (2 ^ 64 - size)) % 2 ^ 32

def isIo : PciBar → Bool
  | .io .. => true
  | _ => false

def isMem : PciBar → Bool
  | .mem .. => true
  | _ => false

/-- mirrors device.hh:98 -/
def range : PciBar → AddrRange
  | .io size addr => rangeSize addr size
  | .mem size addr .. => rangeSize addr size
  | _ => rangeSize 0 0

/-- What `PciIoBar::write` returns: bit 1 is reserved, bit 0 set. mirrors device.hh:145-149 -/
def ioValue (size val : Nat) : Nat := masked size val / 4 * 4 + 1

/-- What `PciMemBar::write` returns: bit 2 says it is 64 bits wide. mirrors device.hh:211-216 -/
def memValue (size val : Nat) (wide : Bool) : Nat :=
  masked size val / 8 * 8 + if wide then 4 else 0

/-- What `PciMemUpperBar::write` returns. mirrors device.hh:266-267 -/
def upperValue (size val : Nat) : Nat := val &&& (2 ^ 64 - 1 - (size - 1) / 2 ^ 32)

end PciBar

/-! ## The device -/

/-- What the reference member of a `PCIConfigTool` denotes. -/
inductive ConfigRef
  | deviceConfig
  | constructorParameter
deriving DecidableEq, Repr

/-- `PCIConfigTool(PCIConfig config) : config(config)`. mirrors device.hh:280,292-294 -/
def PCIConfigTool.new : ConfigRef := .constructorParameter

structure PciDevice where
  config : Bytes
  configTool : ConfigRef := PCIConfigTool.new
  bars : Nat → PciBar := fun _ => .none
  isInvisible : Bool := false
  notified : List AddrRange := []

namespace PciDevice

variable (d : PciDevice)

/-- `config_tool.at<T>(offset) = …`. The parameter of the constructor is gone.
mirrors device.hh:318-326 -/
def setThroughTool (offset size val : Nat) : Except Fault PciDevice :=
  match d.configTool with
  | .deviceConfig => .ok { d with config := writeLE d.config offset size val }
  | .constructorParameter => .error .danglingPointer

def command : Nat := readLE d.config 0x04 2

/-- `config.baseAddr[n]`. -/
def baseAddr (n : Nat) : Nat := readLE d.config (0x10 + 4 * n) 4

/-- The ranges of the decoder, if it is enabled. mirrors device.cc:508-520 -/
def barRanges (command : Nat) (bar : PciBar) : List AddrRange :=
  (if command.testBit 0 && bar.isIo then [bar.range] else []) ++
    (if command.testBit 1 && bar.isMem then [bar.range] else [])

/-- mirrors device.cc:500-524 -/
def getAddrRanges : List AddrRange :=
  (List.range 6).flatMap fun n => barRanges d.command (d.bars n)

/-- `pioPort.sendRangeChange()`: the bus asks for the ranges. -/
def sendRangeChange : PciDevice := { d with notified := d.getAddrRanges }

def setBar (n : Nat) (bar : PciBar) (reg : Nat) : PciDevice :=
  { d with bars := Function.update d.bars n bar, config := writeLE d.config (0x10 + 4 * n) 4 reg }

/-- `_lower->upper(host, val)`. mirrors device.hh:232-239,261-273 -/
def setUpper (host : PciHost) (d : PciDevice) (n val : Nat) : Except Fault PciDevice :=
  match n with
  | 0 => .error (.assertion .lowerBar)
  | m + 1 =>
    match d.bars m with
    | .mem size _ wide lower _ =>
      let reg := PciBar.upperValue size val % 2 ^ 32
      let upper := reg * 2 ^ 32
      .ok { d with
        bars := Function.update d.bars m (.mem size (host.memAddr (upper + lower)) wide lower upper)
        config := writeLE d.config (0x10 + 4 * n) 4 reg }
    | _ => .error (.assertion .lowerBar)

/-- `config.baseAddr[num] = BARs[num]->write(hostInterface, val)`. mirrors
device.hh:108-274 and device.cc:982-987 -/
def writeBar (host : PciHost) (d : PciDevice) (n val : Nat) : Except Fault PciDevice :=
  match d.bars n with
  | .none => .ok (d.setBar n .none 0)
  | .io size _ =>
    let reg := PciBar.ioValue size val
    .ok (d.setBar n (.io size (host.pioAddr (reg / 4 * 4))) reg)
  | .mem size _ wide _ upper =>
    let reg := PciBar.memValue size val wide
    let lower := reg / 8 * 8
    .ok (d.setBar n (.mem size (host.memAddr (upper + lower)) wide lower upper) reg)
  | .memUpper => d.setUpper host n val

/-! ## Accesses -/

/-- The registers whose offset makes `writeConfig` panic. mirrors device.cc:840-865 -/
def readOnly (headerType offset : Nat) : Bool :=
  (headerType == 0 && [0x3D, 0x3E, 0x3F, 0x09, 0x08].contains offset) ||
    (headerType == 1 && [0x09, 0x08].contains offset)

def invalidSize : Fault := .panic "invalid access size(?) for PCI configspace!\n"

/-- The header, 2 bytes. A write to the cache line size stores one byte.
mirrors device.cc:949-973 -/
def writeHeader2 (offset val : Nat) : PciDevice :=
  match offset with
  | 0x04 => { d with config := writeLE d.config 0x04 2 val }.sendRangeChange
  | 0x0C => { d with config := writeLE d.config 0x0C 1 val }
  | _ => { d with config := writeLE d.config offset 2 val }

/-- The header, 4 bytes. mirrors device.cc:974-1019 -/
def writeHeader4 (host : PciHost) (d : PciDevice) (offset val : Nat) : Except Fault PciDevice :=
  if 0x10 ≤ offset ∧ offset ≤ 0x24 ∧ offset % 4 = 0 then do
    let d ← d.writeBar host ((offset - 0x10) / 4) val
    .ok d.sendRangeChange
  else if offset = 0x30 then
    .ok { d with config := writeLE d.config 0x30 4 (if val = 0xfffffffe then 0xffffffff else val) }
  else if offset = 0x04 then .ok { d with config := writeLE d.config 0x04 2 val }.sendRangeChange
  else .ok d

/-- The cases of a 1-byte write all store the byte. mirrors device.cc:917-1023 -/
def writeHeader (host : PciHost) (d : PciDevice) (offset size val : Nat) : Except Fault PciDevice :=
  match size with
  | 1 => .ok { d with config := writeLE d.config offset 1 val }
  | 2 => .ok (d.writeHeader2 offset val)
  | 4 => d.writeHeader4 host offset val
  | _ => .error invalidSize

/-- mirrors device.cc:823-1026; `offset` is `pkt->getAddr() & 0xFFF` -/
def writeConfig (host : PciHost) (d : PciDevice) (offset size val : Nat) : Except Fault PciDevice :=
  if readOnly (d.config 0x0E).toNat offset then .error (.panic "read only")
  else if 0x40 ≤ offset then
    if [1, 2, 4, 8].contains size then d.setThroughTool offset size val else .error invalidSize
  else d.writeHeader host offset size val

/-- mirrors device.cc:406-474 -/
def readConfig (offset size : Nat) : Except Fault Nat :=
  if d.isInvisible then .ok (256 ^ size - 1)
  else if [1, 2, 4, 8].contains size then .ok (readLE d.config offset size)
  else .error invalidSize

/-! ## Construction -/

inductive BarParams
  | none
  | io (size : Nat)
  | mem (size : Nat)
  | memUpper
deriving DecidableEq, Repr

/-- A decoder as its constructor makes it, where a memory decoder next to an upper half has been
told so (`mu->lower(ml)`). mirrors device.cc:89-110 -/
def newBar (params : Nat → BarParams) (n : Nat) : PciBar :=
  match params n with
  | .none => .none
  | .io size => .io size 0
  | .mem size => .mem size 0 (params (n + 1) == .memUpper && n + 1 < 6) 0 0
  | .memUpper => .memUpper

/-- The constructor writes 0 to the six registers, of a `config` whose other registers are set;
`init` tells the bus the ranges. An upper half without a memory decoder before it ends the
simulation (`fatal_if`). mirrors device.cc:64-127 -/
def construct (host : PciHost) (config : Bytes) (params : Nat → BarParams) :
    Except Fault PciDevice := do
  let d ← (List.range 6).foldlM (fun d n => d.writeBar host n 0)
    ({ config, bars := newBar params } : PciDevice)
  .ok d.sendRangeChange

end PciDevice

end Gem5Cxl.L2
