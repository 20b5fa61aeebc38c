import Gem5Cxl.Core.FoldedHistory
import Gem5Cxl.Core.Lts
import Gem5Cxl.L1Message.Packet

/-!
# The histories of the TAGE branch predictor (`cpu/pred/tage_base.cc`)

A thread's global history lives in a buffer of `histBufferSize` outcomes. `gHist` points to
the most recent one and moves down; at the start of the buffer, the last `maxHist` outcomes
are copied to its end. The folded histories are registers that hold a history in a few bits,
three for every table.

* `FoldedHistory.update`, `updateGHist`: one more outcome.
* `updateHistories`, `squash`: what a prediction does, and what repairs it.

Pointers into the buffer are offsets; an access outside of it is a fault. `ptGhist` is an
`int` and `histBufferSize` an `unsigned`, so that the difference at a rollover is converted
(`toInt`). The history lengths of the tables, which `calculateParameters` computes in
floating point, are parameters.
-/
namespace Gem5Cxl.L2.Tage

open Core Core.Folded L1 Function

/-- mirrors tage_base.hh:86-98 -/
structure FoldedHistory where
  comp : BitVec 32 := 0#32
  compLength : Nat
  origLength : Nat
  outpoint : Nat
deriving DecidableEq, Repr

/-- mirrors tage_base.hh:99-104 -/
def FoldedHistory.init (original_length compressed_length : Nat) : FoldedHistory where
  origLength := original_length
  compLength := compressed_length
  outpoint := original_length % compressed_length

/-- `h` reads from the pointer on. mirrors tage_base.hh:106-112 -/
def FoldedHistory.update (f : FoldedHistory) (h : Nat → Except Fault Bool) :
    Except Fault FoldedHistory := do
  let comp := f.comp <<< 1 ||| bit 32 (← h 0)
  let comp := comp ^^^ bit 32 (← h f.origLength) <<< f.outpoint
  let comp := comp ^^^ comp >>> f.compLength
  return { f with comp := comp &&& BitVec.ofNat 32 (2 ^ f.compLength - 1) }

inductive Register | computeIndices | computeTags0 | computeTags1
deriving DecidableEq, Repr

/-- mirrors tage_base.hh:442-462 -/
structure ThreadHistory where
  pathHist : BitVec 32 := 0#32
  globalHistory : Nat → Bool := fun _ => false
  gHist : Int := 0
  ptGhist : Int := 0
  folded : Register → Nat → FoldedHistory

/-- What is saved for a branch: `saved` has `ci`, `ct0` and `ct1`.
mirrors tage_base.hh:128-156 -/
structure BranchInfo where
  pathHist : BitVec 32 := 0#32
  ptGhist : Int := 0
  saved : Register → Nat → BitVec 32 := fun _ _ => 0#32

/-- The parameters. mirrors tage_base.hh:425-439 -/
structure TAGEBase where
  nHistoryTables : Nat
  histBufferSize : Nat
  maxHist : Nat
  pathHistBits : Nat := 16
  instShiftAmt : Nat := 2
  speculativeHistUpdate : Bool := true
  histLengths : Nat → Nat
  logTagTableSizes : Nat → Nat
  tagTableTagWidths : Nat → Nat

/-- An `unsigned` value as an `int`. -/
def toInt (n : Nat) : Int := (n : Int).bmod (2 ^ 32)

namespace TAGEBase

variable (cfg : TAGEBase)

/-- The compressed length of a folded history. mirrors tage_base.cc:154-159 -/
def width : Register → Nat → Nat
  | .computeIndices, i => cfg.logTagTableSizes i
  | .computeTags0, i => cfg.tagTableTagWidths i
  | .computeTags1, i => cfg.tagTableTagWidths i - 1

/-- mirrors tage_base.cc:110-116 and 150-163 -/
def initHistory : ThreadHistory where
  folded r i := .init (cfg.histLengths i) (cfg.width r i)

def read (tab : Nat → Bool) (i : Int) : Except Fault Bool :=
  if 0 ≤ i ∧ i < cfg.histBufferSize then .ok (tab i.toNat) else .error .outOfBounds

def write (tab : Nat → Bool) (i : Int) (b : Bool) : Except Fault (Nat → Bool) :=
  if 0 ≤ i ∧ i < cfg.histBufferSize then .ok (update tab i.toNat b) else .error .outOfBounds

/-- The loop of a rollover. mirrors tage_base.cc:329-330 -/
def copyBack (tab : Nat → Bool) : Except Fault (Nat → Bool) :=
  (List.range cfg.maxHist).foldlM (fun tab (i : Nat) => do
    cfg.write tab (cfg.histBufferSize - cfg.maxHist + i : Nat) (← cfg.read tab i)) tab

/-- The pointer, the buffer and the index. mirrors tage_base.cc:319-337 -/
def updateGHist (h : Int) (dir : Bool) (tab : Nat → Bool) (pt : Int) :
    Except Fault (Int × (Nat → Bool) × Int) := do
  let (h, tab, pt) ←
    if pt = 0 then do
      let tab ← cfg.copyBack tab
      let pt := toInt (cfg.histBufferSize - cfg.maxHist)
      pure (pt, tab, pt)
    else pure (h, tab, pt)
  let pt := pt - 1
  let h := h - 1
  return (h, ← cfg.write tab h dir, pt)

variable (t : ThreadHistory)

/-- The folded histories of table `i` take the outcome at `gHist`.
mirrors tage_base.cc:617-619 and 648-650 -/
def updateTable (i : Nat) : Except Fault ThreadHistory := do
  let h := fun j : Nat => cfg.read t.globalHistory (t.gHist + j)
  let index ← (t.folded .computeIndices i).update h
  let tag0 ← (t.folded .computeTags0 i).update h
  let tag1 ← (t.folded .computeTags1 i).update h
  return { t with
    folded := fun r => update (t.folded r) i
      (match r with | .computeIndices => index | .computeTags0 => tag0 | .computeTags1 => tag1) }

/-- mirrors tage_base.cc:612-616 -/
def saveTable (bi : BranchInfo) (i : Nat) : BranchInfo :=
  { bi with saved := fun r => update (bi.saved r) i (t.folded r i).comp }

/-- mirrors tage_base.cc:645-647 -/
def restoreTable (bi : BranchInfo) (i : Nat) : ThreadHistory :=
  { t with folded := fun r => update (t.folded r) i { t.folded r i with comp := bi.saved r i } }

def tables : List Nat := List.range' 1 cfg.nHistoryTables

/-- The body of the loop of `updateHistories`. mirrors tage_base.cc:611-620 -/
def saveUpdate (speculative : Bool) (s : ThreadHistory × BranchInfo) (i : Nat) :
    Except Fault (ThreadHistory × BranchInfo) := do
  let bi := if speculative then saveTable s.1 s.2 i else s.2
  return (← cfg.updateTable s.1 i, bi)

/-- The body of the loop of `squash`. mirrors tage_base.cc:644-651 -/
def restoreUpdate (bi : BranchInfo) (t : ThreadHistory) (i : Nat) : Except Fault ThreadHistory :=
  cfg.updateTable (restoreTable t bi i) i

/-- mirrors tage_base.cc:587-626 -/
def updateHistories (branch_pc : Nat) (taken : Bool) (bi : BranchInfo) (speculative : Bool) :
    Except Fault (ThreadHistory × BranchInfo) :=
  if speculative ≠ cfg.speculativeHistUpdate then .ok (t, bi)
  else do
    let pathbit := branch_pc >>> cfg.instShiftAmt % 2
    let (gHist, globalHistory, ptGhist) ← cfg.updateGHist t.gHist taken t.globalHistory t.ptGhist
    let pathHist := (t.pathHist <<< 1 + BitVec.ofNat 32 pathbit) &&& BitVec.ofNat 32 (2 ^ cfg.pathHistBits - 1)
    let t := { t with pathHist, globalHistory, gHist, ptGhist }
    let bi := if speculative then { bi with ptGhist, pathHist } else bi
    let (t, bi) ← cfg.tables.foldlM (cfg.saveUpdate speculative) (t, bi)
    if t.gHist ≠ t.ptGhist then .error (.assertion .gHistPointer) else return (t, bi)

/-- mirrors tage_base.cc:628-652 -/
def squash (taken : Bool) (bi : BranchInfo) : Except Fault ThreadHistory :=
  if !cfg.speculativeHistUpdate then .ok t
  else do
    let globalHistory ← cfg.write t.globalHistory bi.ptGhist taken
    let t := { t with pathHist := bi.pathHist, ptGhist := bi.ptGhist, gHist := bi.ptGhist, globalHistory }
    cfg.tables.foldlM (cfg.restoreUpdate bi) t

end TAGEBase

end Gem5Cxl.L2.Tage
