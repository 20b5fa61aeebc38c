import Mathlib.Algebra.Ring.Nat
import Gem5Cxl.Core.Lts
import Gem5Cxl.L1Message.Packet

/-!
# Address ranges and maps of them (`base/addr_range.hh`, `base/addr_range_map.hh`)

An `AddrRange` is an interval of addresses, or the part of one that an
interleaving selects: of the addresses in the interval those whose bits, xored
under each mask, give `intlvMatch`. An `AddrRangeMap` keeps ranges that do not
intersect, in a `std::map` ordered by `operator<` (`tree`), and a list of the
entries found last (`cache`).

* `find`: every lookup. It tries the cached entries, then the first entry above
  the argument, then the entries below it as long as they merge with the one
  before.
* `insert`, `eraseOne`, `eraseRange`, `clear`: `eraseRange` takes the first of
  the erased entries out of the cache, once for each of them.

An entry of the tree is a node with an identity, and an iterator is that
identity; to use one that is no longer in the tree is a fault. Addresses are
below 2^64 and wrap. `granularity` collects the masks in an `int`, so that it
sees their low 32 bits; if these are 0 it shifts by 64, which has no meaning.
The number of masks is taken to be small enough for the other shifts.
-/
namespace Gem5Cxl.L2.RangeMap

open Core L1

/-! ## Ranges -/

/-- mirrors addr_range.hh:81-100 -/
structure AddrRange where
  start : Nat
  stop : Nat
  masks : List Nat := []
  intlvMatch : Nat := 0
deriving DecidableEq, Repr

/-- mirrors addr_range.hh:830-834 -/
def rangeSize (start size : Nat) : AddrRange := { start, stop := (start + size) % 2 ^ 64 }

def popCount (v : Nat) : Nat := ((List.range 64).filter v.testBit).length

def ctz64 (v : Nat) : Nat := ((List.range 64).find? v.testBit).getD 64

/-- The bits of an address that the masks select. mirrors addr_range.hh:478-486 -/
def select (a : Nat) : List Nat → Nat
  | [] => 0
  | mask :: masks => popCount (a &&& mask) % 2 ||| select a masks <<< 1

namespace AddrRange

variable (this r : AddrRange)

/-- mirrors addr_range.hh:284 -/
def interleaved : Bool := !this.masks.isEmpty

/-- mirrors addr_range.hh:325-329 -/
def size : Nat := ((this.stop + (2 ^ 64 - this.start)) % 2 ^ 64) >>> this.masks.length

/-- The masks as `granularity` sees them. -/
def combinedMask : Nat := this.masks.foldl (· ||| ·) 0 % 2 ^ 32

/-- mirrors addr_range.hh:293-306 -/
def granularity : Except Fault Nat :=
  if this.interleaved then
    if this.combinedMask = 0 then .error .undefinedShift
    else .ok (1 <<< ctz64 this.combinedMask)
  else .ok this.size

/-- mirrors addr_range.hh:390-395 -/
def mergesWith : Bool := r.start = this.start && r.stop = this.stop && r.masks = this.masks

/-- mirrors addr_range.hh:470-490 -/
def contains (a : Nat) : Bool :=
  this.start ≤ a && a < this.stop && select a this.masks = this.intlvMatch

/-- mirrors addr_range.hh:407-432 -/
def intersects : Except Fault Bool :=
  if this.start ≥ r.stop ∨ this.stop ≤ r.start then .ok false
  else if !this.interleaved && !r.interleaved then .ok true
  else if r.size = 1 then .ok (this.contains r.start)
  else if this.mergesWith r then .ok (this.intlvMatch = r.intlvMatch)
  else .error (.panic "Cannot test intersection of %s and %s\n")

/-- mirrors addr_range.hh:444-461 -/
def isSubset : Except Fault Bool :=
  if this.interleaved then .error (.panic "Cannot test subset of interleaved range %s\n")
  else if r.interleaved then
    if r.contains this.start && r.contains ((this.stop + (2 ^ 64 - 1)) % 2 ^ 64) then do
      let g ← r.granularity
      .ok (this.size ≤ g)
    else .ok false
  else .ok (this.start ≥ r.start && this.stop ≤ r.stop)

/-- `operator<`. mirrors addr_range.hh:695-711 -/
def lt : Bool :=
  if this.start ≠ r.start then this.start < r.start
  else if this.interleaved && r.interleaved then this.intlvMatch < r.intlvMatch
  else this.interleaved

/-- The ranges that the loop pushes from here on, and the last one. mirrors addr_range.hh:647-678 -/
def excludeLoop (nextStart : Nat) : List AddrRange → Except Fault (List AddrRange)
  | [] => .ok (if nextStart < this.stop then [{ start := nextStart, stop := this.stop }] else [])
  | e :: es =>
    if e.interleaved then .error (.assertion .notInterleaved)
    else do
      if !(← this.intersects e) then excludeLoop nextStart es
      else if e.start ≤ nextStart then
        if e.stop < this.stop then excludeLoop (if nextStart < e.stop then e.stop else nextStart) es
        else .ok []
      else if e.stop < this.stop then do
        let ranges ← excludeLoop e.stop es
        .ok ({ start := nextStart, stop := e.start } :: ranges)
      else .ok [{ start := nextStart, stop := e.start }]

/-- mirrors addr_range.hh:638-679 -/
def exclude (excludeRanges : List AddrRange) : Except Fault (List AddrRange) :=
  if this.interleaved then .error (.assertion .notInterleaved)
  else this.excludeLoop this.start (excludeRanges.mergeSort fun r s => !s.lt r)

end AddrRange

/-- `exclude` of a list of ranges. mirrors addr_range.hh:765-775 -/
def exclude (base toExclude : List AddrRange) : Except Fault (List AddrRange) := do
  let toExclude := toExclude.mergeSort fun r s => !s.lt r
  let ranges ← base.mapM (·.exclude toExclude)
  .ok ranges.flatten

/-! ## Maps -/

structure Entry (V : Type) where
  id : Nat
  range : AddrRange
  val : V
deriving DecidableEq, Repr

structure AddrRangeMap (V : Type) where
  tree : List (Entry V) := []
  cache : List Nat := []
  nextId : Nat := 0
deriving DecidableEq, Repr

namespace AddrRangeMap

variable {V : Type} (N : Nat) (m : AddrRangeMap V)

/-- `*it`. -/
def deref (it : Nat) : Except Fault (Entry V) :=
  match m.tree.find? fun e => e.id = it with
  | some e => .ok e
  | none => .error .danglingIterator

/-- mirrors addr_range_map.hh:255-274 -/
def addNewEntryToCache (it : Nat) : AddrRangeMap V :=
  if N ≠ 0 then
    if m.cache.length ≥ N then
      -- the last element is overwritten, and moved to the front unless it is the only one
      if N > 1 then { m with cache := it :: m.cache.dropLast }
      else { m with cache := m.cache.dropLast ++ [it] }
    else { m with cache := it :: m.cache }
  else m

/-- The loop over the cache. mirrors addr_range_map.hh:290-299 -/
def findCached (cond : AddrRange → Except Fault Bool) : List Nat → Except Fault (Option (Entry V))
  | [] => .ok none
  | it :: cache => do
    let e ← m.deref it
    if ← cond e.range then .ok (some e) else findCached cond cache

/-- The loop over the entries below the argument, from the last.
mirrors addr_range_map.hh:309-320 -/
def walkBack (cond : AddrRange → Except Fault Bool) :
    List (Entry V) → Except Fault (Option (Entry V))
  | [] => .ok none
  | i :: rest => do
    if ← cond i.range then .ok (some i)
    else
      match rest with
      | [] => .ok none
      | next :: _ => if next.range.mergesWith i.range then walkBack cond rest else .ok none

variable (r : AddrRange)

/-- The entries up to `upper_bound(r)`, and those from it on. -/
def below (tree : List (Entry V)) : List (Entry V) :=
  tree.takeWhile fun e => !r.lt e.range

def above (tree : List (Entry V)) : List (Entry V) :=
  tree.dropWhile fun e => !r.lt e.range

def findInTree (cond : AddrRange → Except Fault Bool) :
    Except Fault (Option (Entry V)) := do
  match above r m.tree with
  | next :: _ => if ← cond next.range then .ok (some next) else walkBack cond (below r m.tree).reverse
  | [] => walkBack cond (below r m.tree).reverse

/-- mirrors addr_range_map.hh:286-321 -/
def find (cond : AddrRange → Except Fault Bool) :
    Except Fault (AddrRangeMap V × Option (Entry V)) := do
  match ← m.findCached cond m.cache with
  | some e => .ok ({ m with cache := e.id :: m.cache.erase e.id }, some e)
  | none =>
    match ← m.findInTree r cond with
    | some e => .ok (m.addNewEntryToCache N e.id, some e)
    | none => .ok (m, none)

/-- mirrors addr_range_map.hh:89-98 -/
def containsRange : Except Fault (AddrRangeMap V × Option (Entry V)) :=
  m.find N r fun r1 => r.isSubset r1

/-- mirrors addr_range_map.hh:114-123 -/
def contains (a : Nat) : Except Fault (AddrRangeMap V × Option (Entry V)) :=
  m.containsRange N (rangeSize a 1)

/-- mirrors addr_range_map.hh:139-148 -/
def intersects (r : AddrRange) : Except Fault (AddrRangeMap V × Option (Entry V)) :=
  m.find N r fun r1 => r.intersects r1

/-- `std::map::insert`. -/
def treeInsert (d : V) : AddrRangeMap V × Entry V :=
  match m.tree.find? fun e => !r.lt e.range && !e.range.lt r with
  | some e => (m, e)
  | none =>
    let e : Entry V := { id := m.nextId, range := r, val := d }
    ({ m with tree := below r m.tree ++ e :: above r m.tree, nextId := m.nextId + 1 }, e)

/-- mirrors addr_range_map.hh:154-161 -/
def insert (d : V) : Except Fault (AddrRangeMap V × Option (Entry V)) := do
  let (m, found) ← m.intersects N r
  match found with
  | some _ => .ok (m, none)
  | none =>
    let (m, e) := m.treeInsert r d
    .ok (m, some e)

/-- `erase(p)`. mirrors addr_range_map.hh:166-171 -/
def eraseOne (p : Nat) : Except Fault (AddrRangeMap V) := do
  let _ ← m.deref p
  .ok { m with
    cache := m.cache.filter (· ≠ p)
    tree := m.tree.filter fun e => e.id ≠ p }

/-- The entries from `p` on. -/
def startingAt (p : Nat) : List (Entry V) := m.tree.dropWhile fun e => e.id ≠ p

/-- The entries in `[p, q)`; `none` is `end()`. -/
def between (p : Nat) (q : Option Nat) : List (Entry V) :=
  (m.startingAt p).takeWhile fun e => some e.id ≠ q

/-- `erase(p, q)`. mirrors addr_range_map.hh:176-183 -/
def eraseRange (p q : Option Nat) : Except Fault (AddrRangeMap V) :=
  match p with
  | none => if q = none then .ok m else .error .endIterator
  | some p => do
    let _ ← m.deref p
    -- the loop over `[p, q)` has to meet `q`
    if q ≠ none ∧ ∀ e ∈ m.startingAt p, some e.id ≠ q then .error .endIterator
    else .ok { m with
      -- each turn of the loop removes `p`, not the entry of the turn
      cache := (m.between p q).foldl (fun cache _ => cache.filter (· ≠ p)) m.cache
      tree := m.tree.takeWhile (fun e => e.id ≠ p) ++
        (m.startingAt p).dropWhile fun e => some e.id ≠ q }

/-- mirrors addr_range_map.hh:188-193 -/
def clear : AddrRangeMap V := { m with cache := [], tree := [] }

end AddrRangeMap

end Gem5Cxl.L2.RangeMap
