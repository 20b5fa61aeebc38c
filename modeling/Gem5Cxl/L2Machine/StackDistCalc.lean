import Gem5Cxl.L2Machine.SkewedAssociative

/-!
# The stack distance calculator (`mem/stack_dist_calc.cc`)

The distance of an address is the number of addresses used since its last use. Each
use adds a leaf to a binary tree whose inner nodes hold the number of leaves to
their left and right; the leaf of the address's last use is taken out, and the
walk from there to the root adds up what lies to the right. Inner nodes all of
whose leaves are gone are deleted on the way.

* `updateSum`, `updateSumsLeavesToRoot`: the walk that changes the sums.
* `getSum`, `getSumsLeavesToRoot`: the walk that only reads them.
* `updateTree`: a new root when the tree is full, and the inner nodes a new leaf
  needs.
* `calcStackDistAndUpdate`, `calcStackDist`.

A node is owned by the map of its layer, and no layer uses an index twice, so a
pointer to a node is its layer and index; one to a deleted node faults. A lookup
in a layer that finds no node is a fault too: in the source it would make the
pointer null. The verification stack is left out (`verifyStack` is false).
Indices and sums count calls, and are natural numbers.
-/
namespace Gem5Cxl.L2.StackDist

open Core L1 L2.Indexing Function

/-- mirrors stack_dist_calc.hh:351-389 -/
structure Node where
  sumLeft : Nat := 0
  sumRight : Nat := 0
  discardLeft : Bool := false
  discardRight : Bool := false
  nodeIndex : Nat := 0
  parent : Option (Nat × Nat) := none
  isLeftNode : Bool := true
  isMarked : Bool := false
deriving DecidableEq, Repr

/-- `treeDepth` is `tree.size() - 1`. mirrors stack_dist_calc.hh:398-408 -/
structure StackDistCalc where
  index : Nat
  tree : Nat → Nat → Option Node
  treeDepth : Nat
  aiMap : Nat → Option Nat
  nextIndex : Nat → Nat

/-- mirrors stack_dist_calc.hh:315 -/
def infinity : Nat := 2 ^ 64 - 1

namespace StackDistCalc

/-- mirrors stack_dist_calc.cc:49-74 -/
def new : StackDistCalc where
  index := 0
  tree l i := if l = 1 ∧ i = 0 then some {} else none
  treeDepth := 1
  aiMap _ := none
  nextIndex l := if l = 1 then 1 else 0

variable (t : StackDistCalc)

def deref (p : Nat × Nat) : Except Fault Node :=
  match t.tree p.1 p.2 with
  | some node => .ok node
  | none => .error .danglingPointer

/-- `tree[layer][i]` -/
def lookup (layer i : Nat) : Except Fault (Nat × Nat) :=
  if (t.tree layer i).isSome then .ok (layer, i) else .error .nullPointer

def setNode (p : Nat × Nat) (node : Option Node) : StackDistCalc :=
  { t with tree := update t.tree p.1 (update (t.tree p.1) p.2 node) }

def store (p : Nat × Nat) (node : Node) : StackDistCalc := t.setNode p (some node)

/-- `delete` of a node and the removal of its map entry. -/
def erase (p : Nat × Nat) : StackDistCalc := t.setNode p none

def setNext (layer i : Nat) : StackDistCalc :=
  { t with nextIndex := update t.nextIndex layer i }

/-! ## Sums -/

/-- The new values of a node's fields. mirrors stack_dist_calc.cc:134-160 -/
def summed (node : Node) (fromLeft : Bool) (sumFromBelow : Nat) (discardNode : Bool) : Node :=
  let dead := discardNode && sumFromBelow == 0
  { node with
    sumLeft := if fromLeft then sumFromBelow else node.sumLeft
    sumRight := if fromLeft then node.sumRight else sumFromBelow
    discardLeft := node.discardLeft || dead && fromLeft
    discardRight := node.discardRight || dead && !fromLeft }

/-- Whether the node is not required any more. mirrors stack_dist_calc.cc:162-172 -/
def unneeded (node : Node) (sumFromBelow : Nat) (discardNode : Bool) : Bool :=
  node.discardLeft && node.discardRight && discardNode && node.parent.isSome && sumFromBelow == 0

/-- mirrors stack_dist_calc.cc:100-183 -/
def updateSum : Nat → StackDistCalc → Nat × Nat → Bool → Nat → Nat → Nat → Bool →
    Except Fault (Nat × StackDistCalc)
  | 0, _, _, _, _, _, _, _ => .error .endless
  | fuel + 1, t, p, fromLeft, sumFromBelow, level, stackDist, discardNode => do
    let level := level + 1
    let old ← t.deref p
    let stackDist := if fromLeft then stackDist + old.sumRight else stackDist
    let node := summed old fromLeft sumFromBelow discardNode
    let t := t.store p node
    let discardNode := unneeded node sumFromBelow discardNode
    let t := if discardNode then (t.erase p).erase (level, node.nodeIndex) else t
    match node.parent with
    | some q =>
      updateSum fuel t q node.isLeftNode (node.sumLeft + node.sumRight) level stackDist discardNode
    | none => return (stackDist, t)

/-- mirrors stack_dist_calc.cc:189-209 -/
def updateSumsLeavesToRoot (p : Nat × Nat) (isNewLeaf : Bool) :
    Except Fault (Nat × StackDistCalc) := do
  let leaf ← t.deref p
  let parent ← L1.deref leaf.parent
  if isNewLeaf then
    let t := t.store p { leaf with sumLeft := 1 }
    let (_, t) ← updateSum (t.treeDepth + 1) t parent leaf.isLeftNode 1 0 0 false
    return (infinity, t)
  else
    let t := t.store p { leaf with sumLeft := 0 }
    updateSum (t.treeDepth + 1) t parent leaf.isLeftNode 0 0 0 true

/-- mirrors stack_dist_calc.cc:214-234 -/
def getSum (t : StackDistCalc) : Nat → Nat × Nat → Bool → Nat → Except Fault Nat
  | 0, _, _, _ => .error .endless
  | fuel + 1, p, fromLeft, stackDist => do
    let node ← t.deref p
    let stackDist := if fromLeft then stackDist + node.sumRight else stackDist
    match node.parent with
    | some q => getSum t fuel q node.isLeftNode stackDist
    | none => return stackDist

/-- mirrors stack_dist_calc.cc:237-241 -/
def getSumsLeavesToRoot (p : Nat × Nat) : Except Fault Nat := do
  let leaf ← t.deref p
  let parent ← L1.deref leaf.parent
  t.getSum (t.treeDepth + 1) parent leaf.isLeftNode 0

/-! ## The tree -/

/-- A new inner node in a layer, linked to the last node of the layer above.
mirrors stack_dist_calc.cc:295-307 and 332-346 -/
def addINode (i : Nat) : Except Fault StackDistCalc := do
  let parent ← t.lookup (i + 1) (t.nextIndex (i + 1) - 1)
  let nodeIndex := t.nextIndex i
  let node := { isLeftNode := nodeIndex % 2 = 0, parent := some parent, nodeIndex : Node }
  return (t.setNext i (nodeIndex + 1)).store (i, nodeIndex) node

/-- The loop over the layers `i`, …, 1 when the tree has a new root. -/
def addAll (t : StackDistCalc) : Nat → Except Fault StackDistCalc
  | 0 => .ok t
  | i + 1 => do
    let t ← t.addINode (i + 1)
    addAll t i

/-- The loop over the layers `i`, …, 1 otherwise. `1 << i` is an `int`.
mirrors stack_dist_calc.cc:324-348 -/
def addMissing (t : StackDistCalc) : Nat → Except Fault StackDistCalc
  | 0 => .ok t
  | i + 1 => do
    if 31 ≤ i + 1 then throw .undefinedShift
    let t ← if t.index % 2 ^ (i + 1) = 0 then t.addINode (i + 1) else .ok t
    addMissing t i

/-- The root moves one layer up. mirrors stack_dist_calc.cc:270-290 -/
def addRoot : Except Fault StackDistCalc := do
  let root ← t.deref (t.treeDepth, 0)
  let newRootNode :=
    { sumLeft := root.sumRight + root.sumLeft
      discardLeft := root.discardLeft && root.discardRight : Node }
  let depth := t.treeDepth + 1
  let t := ({ t with treeDepth := depth }.setNext depth 1).store (depth, 0) newRootNode
  return t.store (depth - 1, 0) { root with parent := some (depth, 0) }

/-- mirrors stack_dist_calc.cc:251-349 -/
def updateTree : Except Fault StackDistCalc := do
  if isPowerOf2 t.index then
    let t ← t.addRoot
    t.addAll (t.treeDepth - 1)
  else t.addMissing (t.treeDepth - 1)

/-! ## Calls -/

/-- The leaf of the address's last use is taken out. mirrors stack_dist_calc.cc:379-409 -/
def takeOut (rAddress : Nat) (addNewNode : Bool) :
    Except Fault ((Nat × Bool) × StackDistCalc) :=
  match t.aiMap rAddress with
  | some rIndex => do
    let t := { t with aiMap := update t.aiMap rAddress (if addNewNode then some t.index else none) }
    let leaf ← t.lookup 0 rIndex
    let (stackDist, t) ← t.updateSumsLeavesToRoot leaf false
    let node ← t.deref leaf
    return ((stackDist, node.isMarked), t.erase leaf)
  | none =>
    let t := if addNewNode then
      { t with aiMap := update t.aiMap rAddress (some t.index) } else t
    .ok ((infinity, false), t)

/-- The tree grows before a left leaf. mirrors stack_dist_calc.cc:412-419 -/
def makeRoom : Except Fault StackDistCalc :=
  if t.index % 2 = 0 then t.updateTree else .ok t

/-- The new leaf. mirrors stack_dist_calc.cc:411-454 -/
def addLeaf : Except Fault StackDistCalc := do
  let isLeft := t.index % 2 = 0
  let t ← t.makeRoom
  let parent ← t.lookup 1 (t.nextIndex 1 - 1)
  let leaf := { nodeIndex := t.index, isLeftNode := isLeft, parent := some parent : Node }
  let t := (t.setNext 0 (t.nextIndex 0 + 1)).store (0, t.index) leaf
  let (_, t) ← t.updateSumsLeavesToRoot (0, t.index) true
  return { t with index := t.index + 1 }

/-- mirrors stack_dist_calc.cc:360-457 -/
def calcStackDistAndUpdate (rAddress : Nat) (addNewNode : Bool) :
    Except Fault ((Nat × Bool) × StackDistCalc) := do
  let (res, t) ← t.takeOut rAddress addNewNode
  let t ← if addNewNode then t.addLeaf else .ok t
  return (res, t)

/-- mirrors stack_dist_calc.cc:462-511 -/
def calcStackDist (rAddress : Nat) (mark : Bool) :
    Except Fault ((Nat × Bool) × StackDistCalc) :=
  match t.aiMap rAddress with
  | some rIndex => do
    let leaf ← t.lookup 0 rIndex
    let node ← t.deref leaf
    let t := t.store leaf { node with isMarked := mark }
    let stackDist ← t.getSumsLeavesToRoot leaf
    return ((stackDist, node.isMarked), t)
  | none => .ok ((infinity, false), t)

end StackDistCalc

end Gem5Cxl.L2.StackDist
