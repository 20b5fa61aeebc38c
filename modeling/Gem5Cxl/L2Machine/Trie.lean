import Gem5Cxl.Core.Lts
import Gem5Cxl.L1Message.Packet

/-!
# The prefix trie (`base/trie.hh`)

A trie keeps values under prefixes of keys. Its nodes are heap cells that point
at their parent and own their kids; the handle of an entry is the address of its
node.

* `lookupHandle`, `lookup`: from the root to the first node with a value.
* `insert`: to the last node whose prefix leads to the new one, then a value for
  that node, a new kid, or a split of the edge to a kid.
* `remove`: the node's only kid takes its place. A parent that has no value and
  is left with one kid is removed too.

`n` is `MaxBits`, the number of bits of `Key`. Addresses are not reused, so an
access to a freed node is a fault. A loop or recursion that would visit more
nodes or bits than a path can have is the fault `endless`.
-/
namespace Gem5Cxl.L2.Tries

open Core L1

variable {n : Nat} {V : Type}

/-! ## Nodes -/

/-- A node. `value` is null for internal nodes.
mirrors trie.hh:59-73 -/
structure Node (n : Nat) (V : Type) where
  key : BitVec n
  mask : BitVec n
  value : Option V
  parent : Option Nat
  kids0 : Option Nat
  kids1 : Option Nat

namespace Node

variable (node : Node n V)

/-- mirrors trie.hh:64-68 -/
def «matches» (test : BitVec n) : Bool := test &&& node.mask == node.key

/-- The constructor. mirrors trie.hh:75-81 -/
def make (key mask : BitVec n) (val : Option V) : Node n V :=
  { key := key &&& mask, mask, value := val, parent := none, kids0 := none, kids1 := none }

/-- `kids[i]` -/
def kids : Bool → Option Nat
  | false => node.kids0
  | true => node.kids1

def setKid (kid : Option Nat) : Bool → Node n V
  | false => { node with kids0 := kid }
  | true => { node with kids1 := kid }

/-- Which kid of `parent` the node at `p` is. mirrors trie.hh:325-331 -/
def whichKid (parent : Node n V) (p : Nat) : Except Fault Bool :=
  if parent.kids0 = some p then .ok false
  else if parent.kids1 = some p then .ok true
  else .error (.panic "Trie: Inconsistent parent/kid relationship.\n")

/-- If the parent only has one kid, it is `kids[0]`. mirrors trie.hh:332-336 -/
def packed (parent : Node n V) : Node n V :=
  if parent.kids1.isSome && parent.kids0.isNone then
    { parent with kids0 := parent.kids1, kids1 := none }
  else parent

end Node

/-! ## The heap -/

/-- The nodes by address, and the next free address. The root `head` is at 0. -/
structure Trie (n : Nat) (V : Type) where
  heap : Nat → Option (Node n V)
  next : Nat

namespace Trie

/-- mirrors trie.hh:121-122 -/
def empty : Trie n V where
  heap p := if p = 0 then some (Node.make 0#n 0#n none) else none
  next := 1

variable (t : Trie n V)

def deref (p : Nat) : Except Fault (Node n V) :=
  match t.heap p with
  | some node => .ok node
  | none => .error .danglingPointer

def store (p : Nat) (node : Node n V) : Trie n V :=
  { t with heap := Function.update t.heap p (some node) }

def free (p : Nat) : Trie n V := { t with heap := Function.update t.heap p none }

/-- `make_unique`: the new node is at `t.next`. -/
def alloc (node : Node n V) : Trie n V :=
  { heap := Function.update t.heap t.next (some node), next := t.next + 1 }

/-! ## Lookup -/

/-- The loop of `lookupHandle`. -/
def lookupFrom (t : Trie n V) (key : BitVec n) : Nat → Nat → Except Fault (Option Nat)
  | 0, _ => .error .endless
  | fuel + 1, p => do
    let node ← t.deref p
    if node.value.isSome then return some p
    match ← enters t key node.kids0 with
    | some k => lookupFrom t key fuel k
    | none =>
      match ← enters t key node.kids1 with
      | some k => lookupFrom t key fuel k
      | none => return none
where
  /-- `node->kids[i] && node->kids[i]->matches(key)` -/
  enters (t : Trie n V) (key : BitVec n) : Option Nat → Except Fault (Option Nat)
    | none => .ok none
    | some k => do
      let kid ← t.deref k
      return if kid.matches key then some k else none

/-- mirrors trie.hh:174-191 -/
def lookupHandle (key : BitVec n) : Except Fault (Option Nat) :=
  t.lookupFrom key (n + 1) 0

/-- mirrors trie.hh:290-298 -/
def lookup (key : BitVec n) : Except Fault (Option V) := do
  match ← t.lookupHandle key with
  | some p => return (← t.deref p).value
  | none => return none

/-! ## Insertion -/

/-- Whether the new node belongs below `kid`; then `kid` is the node to go on from.
mirrors trie.hh:140-149 -/
def goesAfter (kid : Option Nat) (key newMask : BitVec n) : Except Fault (Option Nat) :=
  match kid with
  | none => .ok none
  | some k => do
    let node ← t.deref k
    return if node.matches key && node.mask &&& newMask == node.mask then some k else none

/-- mirrors trie.hh:159-165 -/
def extendMask (orig : BitVec n) : BitVec n :=
  let msb := 1#n <<< (n - 1)
  orig ||| orig >>> 1 ||| msb

/-- The mask of the bits that count. A shift by all bits of the type has no meaning.
mirrors trie.hh:210-213 -/
def newMask (n width : Nat) : Except Fault (BitVec n) :=
  if width < n then
    if n - width < n then .ok (BitVec.allOnes n <<< (n - width)) else .error .undefinedShift
  else .ok (BitVec.allOnes n)

/-- The nodes the new one is inserted after; the last of them.
mirrors trie.hh:219-222 -/
def walkPast (t : Trie n V) (key newMask : BitVec n) : Nat → Nat → Except Fault Nat
  | 0, _ => .error .endless
  | fuel + 1, p => do
    let node ← t.deref p
    match ← t.goesAfter node.kids0 key newMask with
    | some k => walkPast t key newMask fuel k
    | none =>
      match ← t.goesAfter node.kids1 key newMask with
      | some k => walkPast t key newMask fuel k
      | none => return p

/-- Down the leg until something does not match or the bits run out.
mirrors trie.hh:243-253 -/
def walkDown (key kidKey newMask : BitVec n) : Nat → BitVec n → Except Fault (BitVec n)
  | 0, _ => .error .endless
  | fuel + 1, lastMask =>
    let curMask := extendMask lastMask
    if key &&& curMask != kidKey &&& curMask || lastMask == newMask then .ok lastMask
    else walkDown key kidKey newMask fuel curMask

/-- One round of the loop over the kids of the node at `p`; `none` if this is not the right leg.
A round that goes on to the next leaves `cur_mask` at `node->mask`, where it started.
mirrors trie.hh:233-277 -/
def insertLeg (p : Nat) (i : Bool) (key newMask : BitVec n) (val : Option V) :
    Except Fault (Option (Nat × Trie n V)) := do
  let node ← t.deref p
  match node.kids i with
  | none =>
    let leaf := t.next
    let t := t.alloc { Node.make key newMask val with parent := some p }
    return some (leaf, t.store p (node.setKid (some leaf) i))
  | some k =>
    let kid ← t.deref k
    let curMask ← walkDown key kid.key newMask (n + 1) node.mask
    if curMask = node.mask then return none
    let mid := t.next
    let midNode := { Node.make key curMask none with parent := some p, kids0 := some k }
    let t := t.alloc midNode
    let t := (t.store k { kid with parent := some mid }).store p (node.setKid (some mid) i)
    -- If we ran out of bits, the value goes right here.
    if curMask = newMask then return some (mid, t.store mid { midNode with value := val })
    let leaf := t.next
    let t := t.alloc { Node.make key newMask val with parent := some mid }
    return some (leaf, t.store mid { midNode with kids1 := some leaf })

/-- mirrors trie.hh:203-281 -/
def insert (t : Trie n V) (key : BitVec n) (width : Nat) (val : Option V) :
    Except Fault (Nat × Trie n V) := do
  if val.isNone then throw (.assertion .valueNonNull)
  let newMask ← newMask n width
  let key := key &&& newMask
  let p ← t.walkPast key newMask (n + 1) 0
  let node ← t.deref p
  if node.mask = newMask then
    if node.value.isSome then throw (.assertion .nodeEmpty)
    return (p, t.store p { node with value := val })
  match ← t.insertLeg p false key newMask val with
  | some r => return r
  | none =>
    match ← t.insertLeg p true key newMask val with
    | some r => return r
    | none => throw (.panic "Reached the end of the Trie insert function!\n")

/-! ## Removal -/

/-- The fixed parent pointer of a kid, if there is one. mirrors trie.hh:322-324 -/
def setParent (kid : Option Nat) (parent : Nat) : Except Fault (Trie n V) :=
  match kid with
  | none => .ok t
  | some k => do
    let node ← t.deref k
    return t.store k { node with parent := some parent }

/-- The node's first kid takes its place. The node is deleted when its parent's pointer to it is
overwritten; both of its kids are null by then. Returns the parent.
mirrors trie.hh:317-336 -/
def detach (p : Nat) : Except Fault (Nat × Trie n V) := do
  let node ← t.deref p
  match node.parent with
  | none => throw (.panic "Trie: Can't remove root node.\n")
  | some q =>
    let t ← t.setParent node.kids0 q
    let parent ← t.deref q
    let i ← parent.whichKid p
    return (q, (t.free p).store q (parent.setKid node.kids0 i).packed)

/-- mirrors trie.hh:307-343 -/
def removeNode : Nat → Trie n V → Nat → Except Fault (Option V × Trie n V)
  | 0, _, _ => .error .endless
  | fuel + 1, t, p => do
    let node ← t.deref p
    let val := node.value
    if node.kids1.isSome then
      if node.value.isNone then throw (.assertion .nodeHasValue)
      return (val, t.store p { node with value := none })
    let (q, t) ← t.detach p
    let parent ← t.deref q
    if parent.kids1.isNone && parent.value.isNone && parent.parent.isSome then
      let (_, t) ← removeNode fuel t q
      return (val, t)
    return (val, t)

/-- `remove(Handle)` -/
def remove (handle : Nat) : Except Fault (Option V × Trie n V) :=
  removeNode (n + 1) t handle

/-- `remove(Key)`. mirrors trie.hh:352-359 -/
def removeKey (key : BitVec n) : Except Fault (Option V × Trie n V) := do
  match ← t.lookupHandle key with
  | none => return (none, t)
  | some handle => t.remove handle

end Trie

end Gem5Cxl.L2.Tries
