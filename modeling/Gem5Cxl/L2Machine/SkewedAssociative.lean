import Mathlib.Algebra.Ring.Nat
import Mathlib.Logic.Function.Iterate
import Gem5Cxl.Core.Lts
import Gem5Cxl.L1Message.Packet

/-!
# Skewed-associative indexing (`mem/cache/tags/indexing_policies/skewed_associative.cc`)

Each way of a skewed-associative cache finds the set of a block with a hash of
its own. The address of a block is not kept in the cache: it is regenerated from
the tag, the set and the way, by undoing the way's hash.

* `bits`, `mbits`, `insertBits`: bit fields (`base/bitfield.hh`).
* `hash`, `dehash`: a shift of a set index by one bit, with feedback, and back.
* `skew`, `deskew`: the eight hashes and their inverses. Ways from 8 on are
  hashed again for each eight.
* `extractSet`, `extractTag`, `regenerateAddr`.

Addresses have 64 bits; `numSets` and the product of entry size and
associativity have 32.
-/
namespace Gem5Cxl.L2.Indexing

open Core L1

/-! ## Bit fields -/

/-- mirrors bitfield.hh:65-69 -/
def mask (nbits : Nat) : Nat := if nbits ≥ 64 then 2 ^ 64 - 1 else 2 ^ nbits - 1

/-- `~` of 64 bits. -/
def complement (val : Nat) : Nat := (2 ^ 64 - 1) ^^^ val

/-- mirrors bitfield.hh:77-84 -/
def bits (val first last : Nat) : Nat := (val >>> last) &&& mask (first - last + 1)

/-- mirrors bitfield.hh:104-109 -/
def mbits (val first last : Nat) : Nat := val &&& (mask (first + 1) &&& complement (mask last))

/-- mirrors bitfield.hh:183-192 -/
def insertBits (val first last bitVal : Nat) : Nat :=
  let bmask := mbits (2 ^ 64 - 1) first last
  (val &&& complement bmask) ||| ((bitVal <<< last) % 2 ^ 64 &&& bmask)

/-- mirrors base/intmath.hh:57-77 -/
def floorLog2 (x : Nat) : Except Fault Nat :=
  if 0 < x then .ok x.log2 else .error (.assertion .positiveLog)

/-- mirrors base/intmath.hh:96-103 -/
def isPowerOf2 (n : Nat) : Bool := n ≠ 0 && (n &&& (n - 1)) = 0

theorem eq_two_pow_of_isPowerOf2 {n : Nat} (h : isPowerOf2 n = true) : n = 2 ^ n.log2 := by
  obtain ⟨hne, hand⟩ : n ≠ 0 ∧ n &&& (n - 1) = 0 := by simpa [isPowerOf2] using h
  have hlo := Nat.log2_self_le hne
  have hhi := Nat.lt_log2_self (n := n)
  refine Classical.byContradiction fun hneq => ?_
  -- otherwise `n` and `n - 1` have the same top bit
  have hbit : (n &&& (n - 1)).testBit n.log2 = true := by
    rw [Nat.testBit_and, Nat.testBit_of_two_pow_le_and_two_pow_add_one_gt hlo hhi,
      Nat.testBit_of_two_pow_le_and_two_pow_add_one_gt (by omega) (by omega), Bool.and_self]
  rw [hand, Nat.zero_testBit] at hbit
  cases hbit

theorem isPowerOf2_two_pow (k : Nat) : isPowerOf2 (2 ^ k) = true := by
  have hand : 2 ^ k &&& (2 ^ k - 1) = 0 := by
    rw [Nat.and_two_pow_sub_one_eq_mod, Nat.mod_self]
  simp [isPowerOf2, hand]

/-! ## The policy -/

/-- mirrors mem/cache/replacement_policies/replaceable_entry.hh:62-122 -/
structure ReplaceableEntry where
  set : Nat
  way : Nat

/-- The fields of the policy and of its base class.
mirrors base.hh:66-161 and
skewed_associative.hh:72-176 -/
structure SkewedAssociative where
  assoc : Nat
  numSets : Nat
  setShift : Nat
  setMask : Nat
  tagShift : Nat
  msbShift : Nat
deriving DecidableEq, Repr

namespace SkewedAssociative

/-- mirrors base.cc:58-72 and
skewed_associative.cc:44-60 -/
def new (size entrySize assoc : Nat) : Except Fault SkewedAssociative :=
  if entrySize * assoc % 2 ^ 32 = 0 then .error .divisionByZero
  else do
    let numSets := size / (entrySize * assoc % 2 ^ 32) % 2 ^ 32
    let setShift ← floorLog2 entrySize
    let logSets ← floorLog2 numSets
    if isPowerOf2 numSets = false then
      .error (.panic "# of sets must be non-zero and a power of 2")
    else if setShift + 2 * logSets > 64 then
      .error (.panic "Unsuported number of bits for the skewing functions.")
    else if numSets ≤ 2 then .error (.panic "The number of sets must be greater than 2")
    else .ok {
      assoc, numSets, setShift
      setMask := numSets - 1
      tagShift := setShift + logSets
      msbShift := logSets - 1 }

variable (p : SkewedAssociative)

/-- mirrors skewed_associative.cc:62-72 -/
def hash (addr : Nat) : Nat :=
  let lsb := bits addr 0 0
  let msb := bits addr p.msbShift p.msbShift
  insertBits (addr >>> 1) p.msbShift p.msbShift (msb ^^^ lsb)

/-- mirrors skewed_associative.cc:74-87 -/
def dehash (addr : Nat) : Nat :=
  let msb := bits addr (p.msbShift - 1) (p.msbShift - 1)
  let xorBit := bits addr p.msbShift p.msbShift
  insertBits ((mbits addr (p.msbShift - 1) 0) <<< 1 % 2 ^ 64) 0 0 (msb ^^^ xorBit)

/-- mirrors skewed_associative.cc:89-139 -/
def skew (addr way : Nat) : Nat :=
  let addr1 := bits addr p.msbShift 0
  let addr2 := bits addr (2 * (p.msbShift + 1) - 1) (p.msbShift + 1)
  let addr1 := match way % 8 with
    | 0 => p.hash addr1 ^^^ p.hash addr2 ^^^ addr2
    | 1 => p.hash addr1 ^^^ p.hash addr2 ^^^ addr1
    | 2 => p.hash addr1 ^^^ p.dehash addr2 ^^^ addr2
    | 3 => p.hash addr1 ^^^ p.dehash addr2 ^^^ addr1
    | 4 => p.dehash addr1 ^^^ p.hash addr2 ^^^ addr2
    | 5 => p.dehash addr1 ^^^ p.hash addr2 ^^^ addr1
    | 6 => p.dehash addr1 ^^^ p.dehash addr2 ^^^ addr2
    | _ => p.dehash addr1 ^^^ p.dehash addr2 ^^^ addr1
  p.hash^[way / 8] addr1

/-- mirrors skewed_associative.cc:141-192 -/
def deskew (addr way : Nat) : Nat :=
  let addr1 := bits addr p.msbShift 0
  let addr2 := bits addr (2 * (p.msbShift + 1) - 1) (p.msbShift + 1)
  let addr1 := if way ≥ 8 then p.dehash^[way / 8] addr1 else addr1
  match way % 8 with
  | 0 => p.dehash (addr1 ^^^ p.hash addr2 ^^^ addr2)
  | 1 => p.hash^[p.msbShift] (addr1 ^^^ p.hash addr2)
  | 2 => p.dehash (addr1 ^^^ p.dehash addr2 ^^^ addr2)
  | 3 => p.hash^[p.msbShift] (addr1 ^^^ p.dehash addr2)
  | 4 => p.hash (addr1 ^^^ p.hash addr2 ^^^ addr2)
  | 5 => p.hash^[p.msbShift + 1] (addr1 ^^^ p.hash addr2)
  | 6 => p.hash (addr1 ^^^ p.dehash addr2 ^^^ addr2)
  | _ => p.hash^[p.msbShift + 1] (addr1 ^^^ p.dehash addr2)

/-- mirrors skewed_associative.cc:194-198 -/
def extractSet (addr way : Nat) : Nat := p.skew (addr >>> p.setShift) way &&& p.setMask

/-- mirrors base.cc:98-102 -/
def extractTag (addr : Nat) : Nat := addr >>> p.tagShift

/-- mirrors skewed_associative.cc:200-207 -/
def regenerateAddr (tag : Nat) (entry : ReplaceableEntry) : Nat :=
  let addrSet := (tag <<< (p.msbShift + 1)) % 2 ^ 64 ||| entry.set
  (tag <<< p.tagShift) % 2 ^ 64 |||
    ((p.deskew addrSet entry.way &&& p.setMask) <<< p.setShift) % 2 ^ 64

end SkewedAssociative

end Gem5Cxl.L2.Indexing
