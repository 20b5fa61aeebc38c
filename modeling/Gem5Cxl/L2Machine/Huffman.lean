import Mathlib.Algebra.Ring.Nat
import Gem5Cxl.Core.Lts
import Gem5Cxl.L1Message.Packet

/-!
# The Huffman encoder (`mem/cache/compressors/encoders/huffman.cc`, `.hh`)

The encoder is given values with their frequencies, and builds a tree from them
by merging the two least frequent trees until one is left. A value's code is the
way from the root to its leaf, with 0 for left and 1 for right, and codes longer
than `maxCodeLength` are dropped.

* `buildTree`: the merges. Of several least frequent trees `std::priority_queue`
  takes any; here the `k`-th look at its top takes the one that `tie k` says.
* `generateCodes`: the two maps. `codeToValue` is kept by the code's bits as a
  number, without its length.
-/
namespace Gem5Cxl.L2.Encoder

open Core L1

/-- mirrors base.hh:44-50 -/
structure Code where
  code : Nat := 0
  length : Nat := 0
deriving DecidableEq, Repr

/-- mirrors huffman.hh:76-134 -/
inductive Node
  | leaf (value frequency : Nat)
  | node (left right : Node)
deriving DecidableEq, Repr

/-- The sum is taken when the node is made, and its subtrees do not change. -/
def Node.getFrequency : Node → Nat
  | .leaf _ frequency => frequency
  | .node left right => (left.getFrequency + right.getFrequency) % 2 ^ 64

/-- mirrors huffman.hh:54-161 -/
structure Huffman where
  maxCodeLength : Nat
  valueToCode : Nat → Option Code := fun _ => none
  codeToValue : Nat → Option Nat := fun _ => none
  trees : List Node := []

namespace Huffman

variable (h : Huffman)

/-- mirrors huffman.cc:50-56 -/
def sample (value frequency : Nat) : Huffman :=
  if frequency ≠ 0 then { h with trees := .leaf value frequency :: h.trees } else h

/-- The trees that may be on top of the queue. -/
def least (trees : List Node) : List Node :=
  trees.filter fun n => trees.all fun n' => n.getFrequency ≤ n'.getFrequency

/-- `top()` and `pop()` of the queue. -/
def pop (tie : Nat) (trees : List Node) : Except Fault (Node × List Node) :=
  match (least trees)[tie % (least trees).length]? with
  | some n => .ok (n, trees.erase n)
  | none => .error .outOfBounds

/-- The loop of `buildTree`, which ends with one tree after `fuel` turns at the latest.
mirrors huffman.cc:63-72 -/
def merge (tie : Nat → Nat) : Nat → Nat → List Node → Except Fault (Nat × List Node)
  | _, 0, _ => .error .endless
  | k, fuel + 1, trees =>
    if trees.length > 1 then do
      let (left, trees) ← pop (tie k) trees
      let (right, trees) ← pop (tie (k + 1)) trees
      merge tie (k + 2) fuel (.node left right :: trees)
    else .ok (k, trees)

/-- mirrors huffman.cc:58-79 -/
def buildTree (tie : Nat → Nat) (trees : List Node) : Except Fault (Node × List Node) := do
  let (k, trees) ← merge tie 0 (trees.length + 1) trees
  pop (tie k) trees

/-- mirrors huffman.cc:89-111 -/
def generateCodes (h : Huffman) : Node → Code → Huffman
  | .leaf value _, c =>
    if c.length > h.maxCodeLength then h
    else { h with
      valueToCode := Function.update h.valueToCode value (some c)
      codeToValue := Function.update h.codeToValue c.code (some value) }
  | .node left right, c =>
    if c.length > h.maxCodeLength then h
    else
      let h := generateCodes h right ⟨((c.code <<< 1) % 2 ^ 64 + 1) % 2 ^ 64, c.length + 1⟩
      generateCodes h left ⟨(c.code <<< 1) % 2 ^ 64, c.length + 1⟩

/-- mirrors huffman.cc:81-87 -/
def generateCodeMaps (tie : Nat → Nat) : Except Fault Huffman := do
  let (root, trees) ← buildTree tie h.trees
  .ok (generateCodes
    { h with trees, valueToCode := fun _ => none, codeToValue := fun _ => none } root {})

/-- mirrors huffman.cc:113-127 -/
def encode (value : Nat) : Code :=
  match h.valueToCode value with
  | some c => c
  | none => { code := 0, length := 65 }

/-- mirrors huffman.cc:129-136 -/
def decode (code : Nat) : Except Fault Nat :=
  match h.codeToValue code with
  | some value => .ok value
  | none => .error (.assertion .codeFound)

end Huffman

end Gem5Cxl.L2.Encoder
