import Gem5Cxl.Core.Lts
import Gem5Cxl.L1Message.Packet

/-!
# Register renaming of the O3 CPU (`cpu/o3/rename.cc`, `rename_map.cc`, `free_list.hh`)

Every thread has a map from architectural to physical registers and a history buffer, the
youngest rename first; the threads share the free lists, one for each class of registers.

* `renameDestRegs`: each destination gets a register of the free list.
* `doSquash`: the renames of squashed instructions are undone, youngest first; their
  registers wait in `freeingInProgress` until the squash is complete.
* `removeFromHistory`: on commit the registers that the committed renames replaced become
  free, oldest first.

Destination registers are flattened. Registers of the classes misc and invalid are not
renamed. The scoreboard, the fields of the instructions and the statistics are left out.
-/
namespace Gem5Cxl.L2.O3

open Core L1 Function

/-- mirrors cpu/reg_class.hh:58-71 -/
inductive RegClassType
  | int | float | vec | vecElem | vecPred | mat | cc | misc | invalid
deriving DecidableEq, Repr

/-- The classes of `renameMaps` and `freeLists`, up to `CCRegClass`. -/
def renameClasses : List RegClassType := [.int, .float, .vec, .vecElem, .vecPred, .mat, .cc]

structure RegId where
  regClass : RegClassType
  index : Nat
deriving DecidableEq, Repr

/-- mirrors cpu/reg_class.hh:139-143 -/
def RegId.isRenameable (r : RegId) : Bool := r.regClass ≠ .misc && r.regClass ≠ .invalid

structure PhysRegId where
  regClass : RegClassType
  index : Nat
deriving DecidableEq, Repr

structure DestReg where
  reg : RegId
  numPinnedWrites : Int := 0
deriving DecidableEq, Repr

structure DynInst where
  seqNum : Nat
  destRegs : List DestReg
deriving DecidableEq, Repr

def DynInst.numDestRegs (inst : DynInst) (c : RegClassType) : Nat :=
  inst.destRegs.countP (·.reg.regClass = c)

/-- mirrors rename.hh:297-316 -/
structure RenameHistory where
  instSeqNum : Nat
  archReg : RegId
  newPhysReg : PhysRegId
  prevPhysReg : PhysRegId
deriving DecidableEq, Repr

structure Rename where
  /-- The sizes of the rename maps. -/
  numRegs : RegClassType → Nat
  freeLists : RegClassType → List PhysRegId
  renameMap : Nat → RegId → PhysRegId
  historyBuffer : Nat → List RenameHistory
  freeingInProgress : Nat → List PhysRegId
  numPinnedWrites : PhysRegId → Int

namespace Rename

variable (s : Rename)

/-- mirrors rename_map.cc:119-129 -/
def canRename (inst : DynInst) : Bool :=
  renameClasses.all fun c => inst.numDestRegs c ≤ (s.freeLists c).length

/-- mirrors free_list.hh:95-101 -/
def getReg (c : RegClassType) : Except Fault (PhysRegId × Rename) :=
  match s.freeLists c with
  | [] => .error (.assertion .freeRegsNonempty)
  | r :: rest => .ok (r, { s with freeLists := update s.freeLists c rest })

/-- mirrors free_list.hh:173-177 -/
def addReg (r : PhysRegId) : Rename :=
  { s with freeLists := update s.freeLists r.regClass (s.freeLists r.regClass ++ [r]) }

/-- What `lookup` returns. mirrors rename_map.hh:224-236 -/
def mapping (tid : Nat) (archReg : RegId) : PhysRegId :=
  match archReg.regClass with
  | .invalid => ⟨.invalid, 0⟩
  | .misc => ⟨.misc, archReg.index⟩
  | _ => s.renameMap tid archReg

/-- mirrors rename_map.hh:121-126 -/
def lookup (tid : Nat) (archReg : RegId) : Except Fault PhysRegId :=
  if archReg.isRenameable ∧ s.numRegs archReg.regClass < archReg.index then .error (.assertion .archRegInRange)
  else .ok (s.mapping tid archReg)

def setMap (tid : Nat) (archReg : RegId) (physReg : PhysRegId) : Rename :=
  { s with renameMap := update s.renameMap tid (update (s.renameMap tid) archReg physReg) }

/-- mirrors rename_map.hh:246-260 -/
def setEntry (tid : Nat) (archReg : RegId) (physReg : PhysRegId) : Except Fault Rename :=
  if physReg.regClass ≠ archReg.regClass then .error (.assertion .physRegClass)
  else if !archReg.isRenameable then do
    let phys ← s.lookup tid archReg
    if physReg ≠ phys then .error (.assertion .fixedMapping) else return s
  else if s.numRegs archReg.regClass < archReg.index then .error (.assertion .archRegInRange)
  else .ok (s.setMap tid archReg physReg)

/-- `SimpleRenameMap::rename`: the new and the previous register.
mirrors rename_map.cc:71-104 -/
def simpleRename (tid : Nat) (dest : DestReg) : Except Fault ((PhysRegId × PhysRegId) × Rename) :=
  let prevReg := s.renameMap tid dest.reg
  if dest.reg.regClass = .invalid then
    if prevReg.regClass ≠ .invalid then .error (.assertion .prevInvalid) else .ok ((prevReg, prevReg), s)
  else if 0 < s.numPinnedWrites prevReg then
    if dest.numPinnedWrites ≠ 0 then .error (.assertion .notPinnedTwice)
    else .ok ((prevReg, prevReg), { s with
      numPinnedWrites := update s.numPinnedWrites prevReg (s.numPinnedWrites prevReg - 1) })
  else do
    let (renamedReg, s) ← s.getReg dest.reg.regClass
    let s := s.setMap tid dest.reg renamedReg
    return ((renamedReg, prevReg), { s with
      numPinnedWrites := update s.numPinnedWrites renamedReg dest.numPinnedWrites })

/-- `UnifiedRenameMap::rename`. mirrors rename_map.hh:203-215 -/
def rename (tid : Nat) (dest : DestReg) : Except Fault ((PhysRegId × PhysRegId) × Rename) :=
  if !dest.reg.isRenameable then do
    let physReg ← s.lookup tid dest.reg
    return ((physReg, physReg), s)
  else s.simpleRename tid dest

def setHistory (tid : Nat) (history : List RenameHistory) : Rename :=
  { s with historyBuffer := update s.historyBuffer tid history }

/-- One destination. mirrors rename.cc:1093-1135 -/
def renameDestReg (tid seqNum : Nat) (s : Rename) (dest : DestReg) : Except Fault Rename := do
  let ((newReg, prevReg), s) ← s.rename tid dest
  return s.setHistory tid (⟨seqNum, dest.reg, newReg, prevReg⟩ :: s.historyBuffer tid)

/-- mirrors rename.cc:1083-1136 -/
def renameDestRegs (inst : DynInst) (tid : Nat) : Except Fault Rename :=
  inst.destRegs.foldlM (renameDestReg tid inst.seqNum) s

/-- One entry is undone, if it was a change. mirrors rename.cc:938-948 -/
def undoEntry (tid : Nat) (hb : RenameHistory) : Except Fault Rename :=
  if hb.newPhysReg ≠ hb.prevPhysReg then do
    let s ← s.setEntry tid hb.archReg hb.prevPhysReg
    return { s with freeingInProgress :=
      Function.update s.freeingInProgress tid (s.freeingInProgress tid ++ [hb.newPhysReg]) }
  else .ok s

/-- The loop of `doSquash` over the history buffer, from the youngest entry on. -/
def squashLoop (squashedSeqNum tid : Nat) : List RenameHistory → Rename → Except Fault Rename
  | [], s => .ok (s.setHistory tid [])
  | hb :: rest, s =>
    if squashedSeqNum < hb.instSeqNum then do
      let s ← s.undoEntry tid hb
      squashLoop squashedSeqNum tid rest s
    else .ok (s.setHistory tid (hb :: rest))

/-- mirrors rename.cc:914-960 -/
def doSquash (squashedSeqNum tid : Nat) : Except Fault Rename :=
  squashLoop squashedSeqNum tid (s.historyBuffer tid) s

/-- The loop of `removeFromHistory`, from the oldest entry on: what is left, oldest first. -/
def removeLoop (instSeqNum : Nat) : List RenameHistory → Rename → List RenameHistory × Rename
  | [], s => ([], s)
  | hb :: rest, s =>
    if hb.instSeqNum ≤ instSeqNum then
      removeLoop instSeqNum rest (if hb.newPhysReg ≠ hb.prevPhysReg then s.addReg hb.prevPhysReg else s)
    else (hb :: rest, s)

/-- mirrors rename.cc:962-1009 -/
def removeFromHistory (instSeqNum tid : Nat) : Rename :=
  let (left, s) := removeLoop instSeqNum (s.historyBuffer tid).reverse s
  s.setHistory tid left.reverse

/-- The registers of squashed instructions become free. mirrors rename.cc:1302-1314 -/
def freeSquashed (tid : Nat) : Rename :=
  let s' := (s.freeingInProgress tid).foldl addReg s
  { s' with freeingInProgress := update s'.freeingInProgress tid [] }

end Rename

end Gem5Cxl.L2.O3
