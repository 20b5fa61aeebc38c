import Mathlib.Algebra.Ring.Nat
import Mathlib.Logic.Function.Basic

/-!
# The loop predictor (`cpu/pred/loop_predictor.cc`)

With speculation a prediction advances or clears the counter of the entry it hits, and a squash
sets it to what the branch record saved. No function saves it: the record keeps the zero of its
constructor.
-/
namespace Gem5Cxl.L2.LoopPredictor

structure Params where
  logSizeLoopPred : Nat
  loopTableConfidenceBits : Nat
  loopTableTagBits : Nat
  loopTableIterBits : Nat
  logLoopTableAssoc : Nat
  useDirectionBit : Bool
  useHashing : Bool

structure LoopEntry where
  numIter : Nat := 0
  currentIterSpec : Nat := 0
  confidence : Nat := 0
  tag : Nat := 0
  dir : Bool := false

structure BranchInfo where
  loopTag : Nat := 0
  currentIter : Nat := 0
  loopPred : Bool := false
  loopPredValid : Bool := false
  loopIndex : Nat := 0
  loopIndexB : Nat := 0
  /-- `none` is -1. -/
  loopHit : Option Nat := some 0

variable (p : Params)

def Params.loopSetMask : Nat := 2 ^ (p.logSizeLoopPred - p.logLoopTableAssoc) - 1

/-- mirrors loop_predictor.cc:103-118 -/
def lindex (pc_in instShiftAmt : Nat) : Nat :=
  let pc := pc_in >>> instShiftAmt
  ((if p.useHashing then pc ^^^ pc_in else pc) &&& p.loopSetMask) <<< p.logLoopTableAssoc

/-- mirrors loop_predictor.cc:120-126 -/
def finallindex (index lowPcBits way : Nat) : Nat :=
  (if p.useHashing then index ^^^ ((lowPcBits >>> way) <<< p.logLoopTableAssoc) else index) + way

def BranchInfo.idx (bi : BranchInfo) : Option Nat :=
  bi.loopHit.map (finallindex p bi.loopIndex bi.loopIndexB)

variable (ltable : Nat → LoopEntry)

/-- mirrors loop_predictor.cc:128-165, with `speculative` -/
def getLoop (pc : Nat) (bi : BranchInfo) (instShiftAmt : Nat) :
    BranchInfo :=
  let pcShift := p.logSizeLoopPred - p.logLoopTableAssoc
  let bi := { bi with
    loopIndex := lindex p pc instShiftAmt
    loopIndexB := if p.useHashing then (pc >>> pcShift) &&& p.loopSetMask else bi.loopIndexB
    loopTag := (if p.useHashing then (pc >>> pcShift) ^^^ (pc >>> (pcShift + p.loopTableTagBits))
      else pc >>> (instShiftAmt + pcShift)) &&& (2 ^ p.loopTableTagBits - 1) }
  match (List.range (2 ^ p.logLoopTableAssoc)).find? fun i =>
      (ltable (finallindex p bi.loopIndex bi.loopIndexB i)).tag = bi.loopTag with
  | none => { bi with loopHit := none, loopPredValid := false, loopPred := false }
  | some i =>
    let e := ltable (finallindex p bi.loopIndex bi.loopIndexB i)
    let dir := if p.useDirectionBit then e.dir else true
    { bi with
      loopHit := some i
      loopPredValid := e.confidence = (2 ^ p.loopTableConfidenceBits - 1) % 256
      loopPred := if e.currentIterSpec + 1 = e.numIter then !dir else dir }

/-- The counter of the entry that the record hits is set by `f`. -/
def setSpec (bi : BranchInfo) (f : LoopEntry → Nat) :
    Nat → LoopEntry :=
  match bi.idx p with
  | none => ltable
  | some idx => Function.update ltable idx { ltable idx with currentIterSpec := f (ltable idx) }

/-- mirrors loop_predictor.cc:173-185 -/
def specLoopUpdate (taken : Bool) (bi : BranchInfo) : Nat → LoopEntry :=
  setSpec p ltable bi fun e =>
    if taken ≠ e.dir then 0 else (e.currentIterSpec + 1) &&& (2 ^ p.loopTableIterBits - 1)

/-- mirrors loop_predictor.cc:288-308, for a conditional branch and with speculation -/
def loopPredict (loopUseCounter : Int) (ltable : Nat → LoopEntry) (branch_pc : Nat)
    (prev_pred_taken : Bool) (instShiftAmt : Nat) : BranchInfo × (Nat → LoopEntry) :=
  let bi := getLoop p ltable branch_pc {} instShiftAmt
  let pred_taken := if 0 ≤ loopUseCounter ∧ bi.loopPredValid then bi.loopPred else prev_pred_taken
  (bi, specLoopUpdate p ltable pred_taken bi)

/-- `squashLoop` is the same. mirrors loop_predictor.cc:310-330 -/
def squash (bi : BranchInfo) : Nat → LoopEntry :=
  setSpec p ltable bi fun _ => bi.currentIter

end Gem5Cxl.L2.LoopPredictor
