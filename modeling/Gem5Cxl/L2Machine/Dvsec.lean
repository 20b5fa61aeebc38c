import Gem5Cxl.Core.Bytes
import Gem5Cxl.Core.Lts
import Gem5Cxl.L1Message.Packet

/-!
# The DVSEC structures of a CXL device (`dev/cxl/device.cc`)

A CXL device describes itself to software in structures of the extended
configuration space, each a PCIe capability of id 0x23 with a vendor's header
(DVSEC). The user chooses their offsets; `initCxlDvsecs`, which the constructor
calls, writes their headers and links them into a list.

* `initCxlDvsecs`: a loop over three tables that writes a header for each
  structure whose bytes are still free (`testRange`), and a loop over the
  offsets in increasing order that links them.
* `setNextECapaPtr`: the link of one header. The second loop passes it the
  header's own offset, and it shifts the offset by 12, not by 4.
* `DvsecRow.revision`: the revision of each structure but the first is read from
  the parameter of its offset.

The pointers to the structures that the device keeps (`dvsec_mld` and its like)
are left out: `initCxlDvsecs` only writes them. So is their contents past the
headers.
-/
namespace Gem5Cxl.L2

open Core L1

/-- The structures `initCxlDvsecs` knows. mirrors dev/cxl/cxlreg.h:60-67 -/
inductive DvsecKind
  | pcieDvsecForCxlDev | nonCxlFunctionMap | cxlExtensionsForPorts | gpfForCxlPorts | gpfForCxlDev
  | flexBusPorts | registerLocator | mld
deriving DecidableEq, Repr

/-- `*_EXT_BaseOffset` (0 unless the structure is configured) and `*_DVSEC_Rev` of
`CxlDeviceParams`. -/
structure DvsecParams where
  baseOffset : DvsecKind → Nat
  dvsecRev : DvsecKind → Nat

/-- One index of `idlist`, `lenlist` and `revlist`. -/
structure DvsecRow where
  id : Int
  len : Int
  rev : Int
deriving DecidableEq, Repr

/-- mirrors device.cc:58-66 -/
def dvsecRows : List DvsecRow :=
  [⟨0x0, 0x3C, 0x2⟩, ⟨-1, -1, -1⟩, ⟨0x2, 0x2C, 0⟩, ⟨0x3, 0x28, 0⟩, ⟨0x4, 0x10, 0⟩, ⟨0x5, 0x10, 0⟩,
    ⟨-1, -1, -1⟩, ⟨0x7, 0x20, 0x2⟩, ⟨0x8, 0, 0⟩, ⟨0x9, 0x10, 0⟩, ⟨-2, -2, -2⟩]

namespace DvsecRow

/-- The case of `switch (id)`; the case of `CXL_CAP_ID_TEST` (0xA) does nothing. -/
def kind (row : DvsecRow) : Option DvsecKind :=
  if row.id = 0x0 then some .pcieDvsecForCxlDev
  else if row.id = 0x2 then some .nonCxlFunctionMap
  else if row.id = 0x3 then some .cxlExtensionsForPorts
  else if row.id = 0x4 then some .gpfForCxlPorts
  else if row.id = 0x5 then some .gpfForCxlDev
  else if row.id = 0x7 then some .flexBusPorts
  else if row.id = 0x8 then some .registerLocator
  else if row.id = 0x9 then some .mld
  else none

/-- `offset` after the switch. mirrors device.cc:114-184 -/
def offset (p : DvsecParams) (row : DvsecRow) : Int :=
  match row.kind with
  | some k => p.baseOffset k
  | none => -1

/-- `rev` after the switch. mirrors device.cc:112-184 -/
def revision (p : DvsecParams) (row : DvsecRow) : Int :=
  match row.kind with
  | some .pcieDvsecForCxlDev => p.dvsecRev .pcieDvsecForCxlDev
  -- the other cases read the offset, as in `rev = params.MLD_EXT_BaseOffset`
  | some k => p.baseOffset k
  | none => row.rev

end DvsecRow

/-- The loop of `testRange` from index `i`, `n` bytes before its end. -/
def testRangeLoop (map : Nat → Bool) (i : Nat) : Nat → Except Fault ((Nat → Bool) × Bool)
  | 0 => .ok (map, true)
  | n + 1 =>
    if 0x1000 ≤ i then .error .outOfBounds
    else if map i then .ok (map, false)
    else testRangeLoop (Function.update map i true) (i + 1) n

/-- Mark the bytes of a structure, unless one is marked already; the marks made before that stay.
mirrors device.cc:68-84 -/
def testRange (map : Nat → Bool) (st size : Int) : Except Fault ((Nat → Bool) × Bool) :=
  if st ≤ 0 ∨ size < 0 then .ok (map, false)
  else testRangeLoop map st.toNat size.toNat

/-- Offsets of the fields of `DVSEC`. mirrors dev/pci/pcie/pciereg.h:138-168 -/
def eCapaId : Nat := 0
def verNext : Nat := 2
def vendorId : Nat := 4
def revLeng : Nat := 6
def dvsecId : Nat := 8

/-- `sizeof(DVSEC)`. -/
def dvsecHeaderSize : Nat := 10

/-- mirrors device.cc:86-95 -/
def initCxlDVSECHeader (config : Bytes) (dvsec id len rev : Nat) : Bytes :=
  let config := writeLE config (dvsec + eCapaId) 2 0x0023
  let config := writeLE config (dvsec + vendorId) 2 0x1E98
  let config := writeLE config (dvsec + dvsecId) 2 id
  writeLE config (dvsec + revLeng) 2 (len <<< 4 ||| rev)

/-- `PCIConfigTool::setNextECapaPtr`. mirrors dev/pci/device.hh:301-304 -/
def setNextECapaPtr (config : Bytes) (header next : Nat) : Bytes :=
  writeLE config (header + verNext) 2 (readLE config (header + verNext) 2 &&& 0xF ||| next <<< 12)

/-- `std::map::insert` on the keys of the map, in order. -/
def insertOffset (k : Nat) : List Nat → List Nat
  | [] => [k]
  | x :: l => if k < x then k :: x :: l else if k = x then x :: l else x :: insertOffset k l

/-- The locals of `initCxlDvsecs` and the configuration space. -/
structure DvsecState where
  addrmap : Nat → Bool
  offsetlist : List Nat
  config : Bytes

/-- One turn of the first loop. mirrors device.cc:108-203 -/
def initCxlDvsec (p : DvsecParams) (s : DvsecState) (row : DvsecRow) : Except Fault DvsecState := do
  let offset := row.offset p
  let (addrmap, free) ← testRange s.addrmap offset row.len
  if !free then .ok { s with addrmap }
  else if offset < 0x100 then .error (.panic "Offset Error")
  else if 0x1000 < offset.toNat + dvsecHeaderSize then .error .outOfBounds
  else .ok {
    addrmap
    offsetlist := insertOffset offset.toNat s.offsetlist
    config := initCxlDVSECHeader s.config offset.toNat row.id.toNat row.len.toNat
      (row.revision p).toNat }

/-- mirrors device.cc:101-210 -/
def initCxlDvsecs (p : DvsecParams) (config : Bytes) : Except Fault Bytes := do
  let s ← dvsecRows.foldlM (initCxlDvsec p) { addrmap := fun _ => false, offsetlist := [], config }
  -- each header is given its own offset for the next one
  .ok (s.offsetlist.foldl (fun config offset => setNextECapaPtr config offset offset) s.config)

end Gem5Cxl.L2
