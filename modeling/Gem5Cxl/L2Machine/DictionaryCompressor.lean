import Gem5Cxl.Core.Lts
import Gem5Cxl.Core.WordParts
import Gem5Cxl.L1Message.Packet

/-!
# Dictionary-based cache compressors (`mem/cache/compressors/`)

A block is cut into chunks, and each chunk is compressed to the smallest pattern it
matches, possibly against an entry of a dictionary of earlier chunks. Decompression
rebuilds the same dictionary from the patterns.

* `Pattern`, `PatternClass`: an instance of a pattern, and what its class gives the
  factory: the test and the constructor.
* `Scheme`: what a compressor overrides.
* `compressValue`, `compress`, `decompressValue`, `decompress`.
* `toChunks`, `compressBlock`: the splitting of a block, and the entry point.

An entry type `T` of `n` bytes is `Word n`. The dictionary is a vector of `size`
entries, of which the first `numEntries` are valid. Statistics and latencies are
left out.
-/
namespace Gem5Cxl.L2.Compressors

open Core Core.WordParts L1

/-! ## Bit fields -/

/-- mirrors base/bitfield.hh:65-69 -/
def mask (nbits : Nat) : BitVec 64 :=
  if 64 ≤ nbits then BitVec.allOnes 64 else 1#64 <<< nbits - 1#64

/-- mirrors base/bitfield.hh:77-84 -/
def bits (val : BitVec 64) (first last : Nat) : BitVec 64 :=
  (val >>> last) &&& mask (first - last + 1)

/-- mirrors base/bitfield.hh:127-135 -/
def sext (N : Nat) (val : BitVec 64) : BitVec 64 :=
  if bits val (N - 1) (N - 1) ≠ 0#64 then val ||| ~~~ mask N else val

/-- mirrors base/bitfield.hh:159-169 -/
def szext (N : Nat) (val : BitVec 64) : BitVec 64 :=
  if bits val (N - 1) (N - 1) ≠ 0#64 then val ||| ~~~ mask N else val &&& mask N

/-- mirrors base/bitfield.hh:414-431 -/
def popCount {w : Nat} (val : BitVec w) : Nat := ((List.range w).filter val.getLsbD).length

/-! ## Entries -/

/-- A value of the entry type. -/
abbrev Word (n : Nat) := BitVec (8 * n)

/-- mirrors dictionary_compressor.hh:121 -/
abbrev DictionaryEntry (n : Nat) := { bytes : List (BitVec 8) // bytes.length = n }

variable {n : Nat}

/-- mirrors dictionary_compressor_impl.hh:215-225 -/
def toDictionaryEntry (value : Word n) : DictionaryEntry n :=
  ⟨parts 8 n value, length_parts n value⟩

/-- mirrors dictionary_compressor_impl.hh:227-238 -/
def fromDictionaryEntry (entry : DictionaryEntry n) : Word n := join (8 * n) entry.1

/-! ## Patterns -/

/-- The fields of a pattern of each class. `masked` is also that of `LocatedMaskedPattern`. -/
inductive Data (n : Nat)
  | uncompressed (data : DictionaryEntry n)
  | masked (mask bits : Word n)
  | maskedValue (value mask bits : Word n)
  | repeatedValue (size : Nat) (value : Word size)
  | delta (bytes : DictionaryEntry n)
  | signExtended (N : Nat) (bits : BitVec N)
  -- of FPC
  | zeroRun (bits : Word n) (runLength realSize : Nat)
  | signExtendedTwoHalfwords (extendedBytes : BitVec 8 × BitVec 8)
deriving DecidableEq

/-- mirrors dictionary_compressor.hh:284-324 -/
structure Pattern (n : Nat) where
  patternNumber : Nat
  code : Nat
  length : Nat
  numUnmatchedBits : Nat
  matchLocation : Int
  allocate : Bool
  data : Data n
deriving DecidableEq

namespace Pattern

/-- The location is returned as a `uint8_t`. mirrors dictionary_compressor.hh:347 -/
def getMatchLocation (p : Pattern n) : Nat := (p.matchLocation % 256).toNat

/-- mirrors dictionary_compressor.hh:355-359 and fpc.hh:177-181 -/
def getSizeBits (p : Pattern n) : Nat :=
  match p.data with
  | .zeroRun _ _ realSize => realSize
  | _ => p.numUnmatchedBits + p.length

/-- mirrors dictionary_compressor.hh:366 -/
def shouldAllocate (p : Pattern n) : Bool := p.allocate

end Pattern

/-- What the factory uses of a class. -/
structure PatternClass (n : Nat) where
  isPattern : DictionaryEntry n → DictionaryEntry n → Int → Bool
  new : DictionaryEntry n → Int → Pattern n

/-- mirrors dictionary_compressor.hh:423-432 -/
def UncompressedPattern.new (number code metadataLength : Nat) (matchLocation : Int)
    (bytes : DictionaryEntry n) :
    Pattern n :=
  ⟨number, code, metadataLength, n * 8, matchLocation, true, .uncompressed bytes⟩

def UncompressedPattern.isPattern (_bytes _dictBytes : DictionaryEntry n) (_matchLocation : Int) :
    Bool := true

/-! mirrors dictionary_compressor.hh:474-504 -/
namespace MaskedPattern

def new (mask : Word n) (number code metadataLength : Nat) (matchLocation : Int)
    (bytes : DictionaryEntry n) (allocate : Bool) : Pattern n :=
  ⟨number, code, metadataLength, popCount (~~~ mask), matchLocation, allocate,
    .masked mask (fromDictionaryEntry bytes &&& ~~~ mask)⟩

def isPattern (mask : Word n) (bytes dictBytes : DictionaryEntry n) (matchLocation : Int) : Bool :=
  let maskedBytes := fromDictionaryEntry bytes &&& mask
  let maskedDictBytes := fromDictionaryEntry dictBytes &&& mask
  decide (0 ≤ matchLocation) && maskedBytes == maskedDictBytes

def decompress (mask bits : Word n) (dictBytes : DictionaryEntry n) : DictionaryEntry n :=
  let maskedDictBytes := fromDictionaryEntry dictBytes &&& mask
  toDictionaryEntry (bits ||| maskedDictBytes)

end MaskedPattern

/-! mirrors dictionary_compressor.hh:532-560 -/
namespace MaskedValuePattern

def new (value mask : Word n) (number code metadataLength : Nat) (matchLocation : Int)
    (bytes : DictionaryEntry n) (allocate : Bool) : Pattern n :=
  ⟨number, code, metadataLength, popCount (~~~ mask), matchLocation, allocate,
    .maskedValue value mask (fromDictionaryEntry bytes &&& ~~~ mask)⟩

def isPattern (value mask : Word n) (bytes _dictBytes : DictionaryEntry n) (_matchLocation : Int) :
    Bool :=
  let maskedBytes := fromDictionaryEntry bytes &&& mask
  value &&& mask == maskedBytes

def decompress (value mask bits : Word n) : DictionaryEntry n :=
  MaskedPattern.decompress mask bits (toDictionaryEntry value)

end MaskedValuePattern

/-- The constructor is that of `MaskedPattern`. mirrors dictionary_compressor.hh:587-595 -/
def LocatedMaskedPattern.isPattern (mask : Word n) (location : Int)
    (bytes dictBytes : DictionaryEntry n) (matchLocation : Int) : Bool :=
  matchLocation == location && MaskedPattern.isPattern mask bytes dictBytes matchLocation

namespace RepeatedValuePattern

/-- `RepT` has `size` bytes. mirrors dictionary_compressor.hh:621-631 -/
def new (size number code metadataLength : Nat) (matchLocation : Int) (bytes : DictionaryEntry n)
    (allocate : Bool) : Pattern n :=
  ⟨number, code, metadataLength, 8 * size, matchLocation, allocate,
    .repeatedValue size ((fromDictionaryEntry bytes).setWidth (8 * size))⟩

/-- mirrors dictionary_compressor.hh:633-650 -/
def isPattern (size : Nat) (bytes _dictBytes : DictionaryEntry n) (_matchLocation : Int) : Bool :=
  let bytesValue := fromDictionaryEntry bytes
  let repValue := bytesValue.setWidth (8 * size)
  (parts (8 * size) (n / size) bytesValue).all fun curValue => curValue == repValue

/-- mirrors dictionary_compressor.hh:652-663 -/
def decompress (size : Nat) (value : Word size) : DictionaryEntry n :=
  toDictionaryEntry (join (8 * n) (List.replicate (n / size) value))

end RepeatedValuePattern

/-! mirrors dictionary_compressor.hh:697-735 -/
namespace DeltaPattern

def new (deltaSizeBits number code metadataLength : Nat) (matchLocation : Int)
    (bytes : DictionaryEntry n) :
    Pattern n :=
  ⟨number, code, metadataLength, deltaSizeBits, matchLocation, false, .delta bytes⟩

def isValidDelta (deltaSizeBits : Nat) (bytes baseBytes : DictionaryEntry n) : Bool :=
  let limit := if deltaSizeBits ≠ 0 then ((mask (deltaSizeBits - 1)).setWidth (8 * n)).toInt else 0
  let delta := (fromDictionaryEntry bytes - fromDictionaryEntry baseBytes).toInt
  decide (-limit ≤ delta ∧ delta ≤ limit)

def isPattern (deltaSizeBits : Nat) (bytes dictBytes : DictionaryEntry n) (matchLocation : Int) :
    Bool :=
  decide (0 ≤ matchLocation) && isValidDelta deltaSizeBits bytes dictBytes

end DeltaPattern

/-! mirrors dictionary_compressor.hh:767-790 -/
namespace SignExtendedPattern

def new (N number code metadataLength : Nat) (bytes : DictionaryEntry n) (allocate : Bool) :
    Pattern n :=
  ⟨number, code, metadataLength, N, -1, allocate,
    .signExtended N (((fromDictionaryEntry bytes).setWidth 64 &&& mask N).setWidth N)⟩

def isPattern (N : Nat) (bytes _dictBytes : DictionaryEntry n) (_matchLocation : Int) : Bool :=
  let data := fromDictionaryEntry bytes
  data == (szext N (data.setWidth 64)).setWidth (8 * n)

def decompress (N : Nat) (bits : BitVec N) : DictionaryEntry n :=
  toDictionaryEntry ((sext N (bits.setWidth 64)).setWidth (8 * n))

end SignExtendedPattern

namespace FPC.SignExtendedTwoHalfwords

/-- The two `int8_t` are kept as bits. mirrors fpc.hh:255-262 -/
def new (number : Nat) (bytes : DictionaryEntry n) : Pattern n :=
  ⟨number, number, 3, 16, -1, false,
    .signExtendedTwoHalfwords (((fromDictionaryEntry bytes).setWidth 64 &&& mask 8).setWidth 8,
      ((fromDictionaryEntry bytes >>> 16).setWidth 64 &&& mask 8).setWidth 8)⟩

/-- The halfwords are compared as an `int16_t` and a `uint16_t`, that is, as integers.
mirrors fpc.hh:264-275 -/
def isPattern (bytes _dictBytes : DictionaryEntry n) (_matchLocation : Int) : Bool :=
  let data := fromDictionaryEntry bytes
  let extended (halfword : BitVec 16) : Int := ((szext 8 (halfword.signExtend 64)).setWidth 16).toNat
  let low := (data.setWidth 64 &&& mask 16).setWidth 16
  let high := ((data >>> 16).setWidth 64 &&& mask 16).setWidth 16
  low.toInt == extended low && high.toInt == extended high

/-- mirrors fpc.hh:277-285 -/
def decompress (extendedBytes : BitVec 8 × BitVec 8) : DictionaryEntry n :=
  let halfword (byte : BitVec 8) : BitVec 16 := (szext 8 (byte.signExtend 64)).setWidth 16
  toDictionaryEntry ((halfword extendedBytes.2).setWidth (8 * n) <<< 16 |||
    (halfword extendedBytes.1).setWidth (8 * n))

end FPC.SignExtendedTwoHalfwords

/-- The virtual function of the pattern's class. A zero run is a `MaskedValuePattern` of all
zeros. -/
def Pattern.decompress (p : Pattern n) (dictBytes : DictionaryEntry n) : DictionaryEntry n :=
  match p.data with
  | .uncompressed data => data
  | .masked mask bits => MaskedPattern.decompress mask bits dictBytes
  | .maskedValue value mask bits => MaskedValuePattern.decompress value mask bits
  | .repeatedValue size value => RepeatedValuePattern.decompress size value
  | .delta bytes => bytes
  | .signExtended N bits => SignExtendedPattern.decompress N bits
  | .zeroRun bits _ _ => MaskedValuePattern.decompress 0#(8 * n) (BitVec.allOnes (8 * n)) bits
  | .signExtendedTwoHalfwords extendedBytes => FPC.SignExtendedTwoHalfwords.decompress extendedBytes

/-! ## The dictionary -/

/-- The vector keeps the size it is constructed with. -/
structure Dictionary (n size : Nat) where
  entries : List (DictionaryEntry n)
  numEntries : Nat
  full : entries.length = size

variable {size : Nat}

namespace Dictionary

def get (d : Dictionary n size) (i : Nat) : Except Fault (DictionaryEntry n) :=
  match d.entries[i]? with
  | some entry => .ok entry
  | none => .error .outOfBounds

def set (d : Dictionary n size) (i : Nat) (entry : DictionaryEntry n) :
    Except Fault (Dictionary n size) :=
  if i < size then
    .ok { d with entries := d.entries.set i entry, full := (List.length_set ..).trans d.full }
  else .error .outOfBounds

/-- mirrors dictionary_compressor_impl.hh:66-73 -/
def new (n size : Nat) : Dictionary n size where
  entries := List.replicate size (toDictionaryEntry 0#(8 * n))
  numEntries := 0
  full := List.length_replicate

/-- All entries are overwritten. mirrors dictionary_compressor_impl.hh:75-84 -/
def reset (_d : Dictionary n size) : Dictionary n size := new n size

/-- `dictionary[numEntries++] = data` -/
def push (d : Dictionary n size) (data : DictionaryEntry n) : Except Fault (Dictionary n size) := do
  let d' ← d.set d.numEntries data
  return { d' with numEntries := d.numEntries + 1 }

end Dictionary

/-! ## Compressors -/

/-- mirrors dictionary_compressor.hh:391-407 -/
structure CompData (n : Nat) where
  entries : List (Pattern n)
  sizeBits : Nat

/-- mirrors dictionary_compressor_impl.hh:55-64 -/
def CompData.addEntry (compData : CompData n) (pattern : Pattern n) : CompData n where
  entries := compData.entries ++ [pattern]
  sizeBits := compData.sizeBits + pattern.getSizeBits

/-- What a compressor overrides. `patterns` and `last` are its factory; `adjust` is what its
`compress` does to the result, given the block size and the number of entries used. -/
structure Scheme (n : Nat) where
  patterns : List (PatternClass n)
  last : PatternClass n
  addToDictionary : {size : Nat} → Dictionary n size → DictionaryEntry n → Except Fault (Dictionary n size)
  resetDictionary : {size : Nat} → Dictionary n size → Except Fault (Dictionary n size)
  addEntry : CompData n → Pattern n → CompData n
  adjust : Nat → Nat → CompData n → CompData n

/-- mirrors dictionary_compressor.hh:150-191 -/
def Factory.getPattern (bytes dictBytes : DictionaryEntry n) (matchLocation : Int)
    (last : PatternClass n) :
    List (PatternClass n) → Pattern n
  | [] => last.new bytes matchLocation
  | head :: tail =>
    if head.isPattern bytes dictBytes matchLocation then head.new bytes matchLocation
    else getPattern bytes dictBytes matchLocation last tail

namespace Scheme

variable (c : Scheme n)

def getPattern (bytes dictBytes : DictionaryEntry n) (matchLocation : Int) : Pattern n :=
  Factory.getPattern bytes dictBytes matchLocation c.last c.patterns

/-- The loop over the dictionary: `todo` entries from `i` on.
mirrors dictionary_compressor_impl.hh:105-115 -/
def search (d : Dictionary n size) (bytes : DictionaryEntry n) :
    Nat → Nat → Pattern n → Except Fault (Pattern n)
  | 0, _, pattern => .ok pattern
  | todo + 1, i, pattern => do
    let entry ← d.get i
    let tempPattern := c.getPattern bytes entry i
    search d bytes todo (i + 1) (if tempPattern.getSizeBits < pattern.getSizeBits then tempPattern else pattern)

variable (d : Dictionary n size)

/-- Push into the dictionary, if the pattern allocates. -/
def allocate (pattern : Pattern n) (bytes : DictionaryEntry n) :
    Except Fault (Dictionary n size) :=
  if pattern.shouldAllocate then c.addToDictionary d bytes else .ok d

/-- mirrors dictionary_compressor_impl.hh:93-126 -/
def compressValue (data : Word n) : Except Fault (Pattern n × Dictionary n size) := do
  let bytes := toDictionaryEntry data
  let noMatch := c.getPattern bytes (toDictionaryEntry 0#(8 * n)) (-1)
  let pattern ← c.search d bytes d.numEntries 0 noMatch
  let d ← c.allocate d pattern bytes
  return (pattern, d)

/-- A chunk is narrowed to the entry type. mirrors dictionary_compressor_impl.hh:139-145 -/
def compressValues (d : Dictionary n size) (compData : CompData n) :
    List (BitVec 64) → Except Fault (CompData n × Dictionary n size)
  | [] => .ok (compData, d)
  | value :: values => do
    let (pattern, d) ← c.compressValue d (value.setWidth (8 * n))
    compressValues d (c.addEntry compData pattern) values

/-- mirrors dictionary_compressor_impl.hh:128-164 -/
def compress (blkSize : Nat) (d : Dictionary n size) (chunks : List (BitVec 64)) :
    Except Fault (CompData n × Dictionary n size) := do
  let d ← c.resetDictionary d
  let (compData, d) ← c.compressValues d ⟨[], 0⟩ chunks
  return (c.adjust blkSize d.numEntries compData, d)

/-- The bytes handed to a pattern. Those of a pattern that had no match location are arbitrary. -/
def matchedBytes (junk : DictionaryEntry n) (pattern : Pattern n) :
    Except Fault (DictionaryEntry n) :=
  if pattern.matchLocation < 0 then .ok junk else d.get pattern.getMatchLocation

/-- mirrors dictionary_compressor_impl.hh:166-183 -/
def decompressValue (junk : DictionaryEntry n) (pattern : Pattern n) :
    Except Fault (Word n × Dictionary n size) := do
  let dictBytes ← matchedBytes d junk pattern
  let data := pattern.decompress dictBytes
  let d ← c.allocate d pattern data
  return (fromDictionaryEntry data, d)

/-- `junk i` stands for the bytes handed to pattern `i` if it had no match location.
mirrors dictionary_compressor_impl.hh:195-201 -/
def decompressValues (d : Dictionary n size) (junk : Nat → DictionaryEntry n) :
    Nat → List (Pattern n) → Except Fault (List (Word n) × Dictionary n size)
  | _, [] => .ok ([], d)
  | i, entry :: entries => do
    let (value, d) ← c.decompressValue d (junk i) entry
    let (values, d) ← decompressValues d junk (i + 1) entries
    return (value :: values, d)

end Scheme

/-- The values `j - 1`, …, `0` of a word of the block. -/
def gather (decompValues : List (Word n)) (first : Nat) : Nat → BitVec 64 → Except Fault (BitVec 64)
  | 0, word => .ok word
  | j + 1, word =>
    match decompValues[first + j]? with
    | some value => gather decompValues first j (word ||| value.setWidth 64 <<< (j * (8 * n)))
    | none => .error .outOfBounds

/-- The words of the block, `todo` from `i` on. mirrors dictionary_compressor_impl.hh:203-212 -/
def concatenate (decompValues : List (Word n)) : Nat → Nat → Except Fault (List (BitVec 64))
  | 0, _ => .ok []
  | todo + 1, i => do
    let valuesPerEntry := 8 / n
    let word ← gather decompValues (valuesPerEntry * i) valuesPerEntry 0#64
    let words ← concatenate decompValues todo (i + 1)
    return word :: words

/-- mirrors dictionary_compressor_impl.hh:185-213 -/
def Scheme.decompress (c : Scheme n) (blkSize : Nat) (d : Dictionary n size)
    (junk : Nat → DictionaryEntry n)
    (compData : CompData n) : Except Fault (List (BitVec 64) × Dictionary n size) := do
  let d ← c.resetDictionary d
  let (decompValues, d) ← c.decompressValues d junk 0 compData.entries
  let data ← concatenate decompValues (blkSize / 8) 0
  return (data, d)

/-! ## Blocks -/

/-- `todo` chunks from chunk `i` on. -/
def chunksFrom (chunkSizeBits : Nat) (data : List (BitVec 64)) :
    Nat → Nat → Except Fault (List (BitVec 64))
  | 0, _ => .ok []
  | todo + 1, i =>
    let numChunksPer64 := 64 / chunkSizeBits
    let start := i % numChunksPer64
    match data[i / numChunksPer64]? with
    | some word => do
      let chunks ← chunksFrom chunkSizeBits data todo (i + 1)
      return bits word ((start + 1) * chunkSizeBits - 1) (start * chunkSizeBits) :: chunks
    | none => .error .outOfBounds

/-- mirrors base.cc:113-130 -/
def toChunks (blkSize chunkSizeBits : Nat) (data : List (BitVec 64)) :
    Except Fault (List (BitVec 64)) :=
  chunksFrom chunkSizeBits data (blkSize * 8 / chunkSizeBits) 0

/-- `Base::compress`. mirrors base.cc:149-193 -/
def Scheme.compressBlock (c : Scheme n) (blkSize chunkSizeBits sizeThreshold : Nat)
    (d : Dictionary n size)
    (data : List (BitVec 64)) : Except Fault (CompData n × Dictionary n size) := do
  let chunks ← toChunks blkSize chunkSizeBits data
  let (compData, d) ← c.compress blkSize d chunks
  let compSizeBits := if compData.sizeBits > sizeThreshold * 8 then blkSize * 8 else compData.sizeBits
  return ({ compData with sizeBits := compSizeBits }, d)

end Gem5Cxl.L2.Compressors
