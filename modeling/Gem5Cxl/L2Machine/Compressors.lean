import Gem5Cxl.L2Machine.DictionaryCompressor

/-!
# CPack, FPC, FPC-D and the base-delta compressors (`mem/cache/compressors/`)

The pattern classes of each compressor in the order of its factory, its numbers,
codes and metadata lengths, and the functions it overrides. `Compressor` lists the
nine compressors; `Compressor.scheme` is their code.

FPC has no dictionary, FPC-D keeps the last two values, and a base-delta compressor
starts from a base of zero.
-/
namespace Gem5Cxl.L2.Compressors

open Core L1

variable {n size : Nat} (d : Dictionary n size)

/-- `dictionary[numEntries++] = data`, after the assertion.
mirrors cpack.cc:49-54 and base_delta_impl.hh:62-70 -/
def assertAndPush (data : DictionaryEntry n) : Except Fault (Dictionary n size) :=
  if d.numEntries < size then d.push data else .error (.assertion .dictionaryHasRoom)

/-- What all but the base-delta compressors inherit. -/
def resetToZero : Except Fault (Dictionary n size) := .ok d.reset

/-! ## CPack -/

namespace CPack

/-- mirrors cpack.hh:71-74 -/
inductive PatternNumber | ZZZZ | XXXX | MMMM | MMXX | ZZZX | MMMX

/-! The patterns. mirrors cpack.hh:121-175 -/

def patternZZZZ : PatternClass 4 where
  isPattern := MaskedValuePattern.isPattern 0#32 0xFFFFFFFF#32
  new bytes matchLocation :=
    MaskedValuePattern.new 0#32 0xFFFFFFFF#32 PatternNumber.ZZZZ.ctorIdx 0x0 2 matchLocation bytes false

def patternXXXX : PatternClass 4 where
  isPattern := UncompressedPattern.isPattern
  new bytes matchLocation := UncompressedPattern.new PatternNumber.XXXX.ctorIdx 0x1 2 matchLocation bytes

def patternMMMM : PatternClass 4 where
  isPattern := MaskedPattern.isPattern 0xFFFFFFFF#32
  new bytes matchLocation :=
    MaskedPattern.new 0xFFFFFFFF#32 PatternNumber.MMMM.ctorIdx 0x2 6 matchLocation bytes true

def patternMMXX : PatternClass 4 where
  isPattern := MaskedPattern.isPattern 0xFFFF0000#32
  new bytes matchLocation :=
    MaskedPattern.new 0xFFFF0000#32 PatternNumber.MMXX.ctorIdx 0xC 8 matchLocation bytes true

def patternZZZX : PatternClass 4 where
  isPattern := MaskedValuePattern.isPattern 0#32 0xFFFFFF00#32
  new bytes matchLocation :=
    MaskedValuePattern.new 0#32 0xFFFFFF00#32 PatternNumber.ZZZX.ctorIdx 0xD 4 matchLocation bytes false

def patternMMMX : PatternClass 4 where
  isPattern := MaskedPattern.isPattern 0xFFFFFF00#32
  new bytes matchLocation :=
    MaskedPattern.new 0xFFFFFF00#32 PatternNumber.MMMX.ctorIdx 0xE 8 matchLocation bytes true

/-- mirrors cpack.hh:80-104 -/
def scheme : Scheme 4 where
  patterns := [patternZZZZ, patternMMMM, patternZZZX, patternMMMX, patternMMXX]
  last := patternXXXX
  addToDictionary := assertAndPush
  resetDictionary := resetToZero
  addEntry := CompData.addEntry
  adjust _ _ compData := compData

end CPack

/-! ## FPC -/

namespace FPC

/-- mirrors fpc.hh:82-88 -/
inductive PatternNumber
  | ZERO_RUN | SIGN_EXTENDED_4_BITS | SIGN_EXTENDED_1_BYTE | SIGN_EXTENDED_HALFWORD | ZERO_PADDED_HALFWORD
  | SIGN_EXTENDED_TWO_HALFWORDS | REP_BYTES | UNCOMPRESSED

/-! The patterns. mirrors fpc.hh:155-305 -/

def zeroRun : PatternClass 4 where
  isPattern := MaskedValuePattern.isPattern 0#32 0xFFFFFFFF#32
  new bytes _ :=
    { MaskedValuePattern.new 0#32 0xFFFFFFFF#32 PatternNumber.ZERO_RUN.ctorIdx PatternNumber.ZERO_RUN.ctorIdx 3 (-1)
        bytes false with
      data := .zeroRun (fromDictionaryEntry bytes &&& ~~~ 0xFFFFFFFF#32) 0 0 }

def signExtended4Bits : PatternClass 4 where
  isPattern := SignExtendedPattern.isPattern 4
  new bytes _ := SignExtendedPattern.new 4 PatternNumber.SIGN_EXTENDED_4_BITS.ctorIdx
    PatternNumber.SIGN_EXTENDED_4_BITS.ctorIdx 3 bytes false

def signExtended1Byte : PatternClass 4 where
  isPattern := SignExtendedPattern.isPattern 8
  new bytes _ := SignExtendedPattern.new 8 PatternNumber.SIGN_EXTENDED_1_BYTE.ctorIdx
    PatternNumber.SIGN_EXTENDED_1_BYTE.ctorIdx 3 bytes false

def signExtendedHalfword : PatternClass 4 where
  isPattern := SignExtendedPattern.isPattern 16
  new bytes _ := SignExtendedPattern.new 16 PatternNumber.SIGN_EXTENDED_HALFWORD.ctorIdx
    PatternNumber.SIGN_EXTENDED_HALFWORD.ctorIdx 3 bytes false

def zeroPaddedHalfword : PatternClass 4 where
  isPattern := MaskedValuePattern.isPattern 0#32 0x0000FFFF#32
  new bytes _ := MaskedValuePattern.new 0#32 0x0000FFFF#32 PatternNumber.ZERO_PADDED_HALFWORD.ctorIdx
    PatternNumber.ZERO_PADDED_HALFWORD.ctorIdx 3 (-1) bytes false

def signExtendedTwoHalfwords : PatternClass 4 where
  isPattern := SignExtendedTwoHalfwords.isPattern
  new bytes _ := SignExtendedTwoHalfwords.new PatternNumber.SIGN_EXTENDED_TWO_HALFWORDS.ctorIdx bytes

def repBytes : PatternClass 4 where
  isPattern := RepeatedValuePattern.isPattern 1
  new bytes _ := RepeatedValuePattern.new 1 PatternNumber.REP_BYTES.ctorIdx PatternNumber.REP_BYTES.ctorIdx 3 (-1)
    bytes false

def uncompressed : PatternClass 4 where
  isPattern := UncompressedPattern.isPattern
  new bytes _ := UncompressedPattern.new PatternNumber.UNCOMPRESSED.ctorIdx PatternNumber.UNCOMPRESSED.ctorIdx 3 (-1)
    bytes

/-- Only a zero run has a run length. mirrors fpc.hh:188 -/
def getRunLength (p : Pattern n) : Nat :=
  match p.data with
  | .zeroRun _ runLength _ => runLength
  | _ => 0

/-- mirrors fpc.hh:195 -/
def setRunLength (p : Pattern n) (length : Nat) : Pattern n :=
  match p.data with
  | .zeroRun bits _ realSize => { p with data := .zeroRun bits length realSize }
  | _ => p

/-- mirrors fpc.hh:205 -/
def setRealSize (p : Pattern n) (size : Nat) : Pattern n :=
  match p.data with
  | .zeroRun bits runLength _ => { p with data := .zeroRun bits runLength (p.length + size) }
  | _ => p

/-- The zero run goes on, or a new one starts. mirrors fpc.cc:48-75 -/
def countRun (zeroRunSizeBits : Nat) (entries : List (Pattern n)) (pattern : Pattern n) :
    Pattern n :=
  if pattern.patternNumber = PatternNumber.ZERO_RUN.ctorIdx then
    match entries.getLast? with
    | none => setRealSize pattern zeroRunSizeBits
    | some back =>
      if back.patternNumber ≠ PatternNumber.ZERO_RUN.ctorIdx then setRealSize pattern zeroRunSizeBits
      else if getRunLength back = (mask zeroRunSizeBits).toNat then setRealSize pattern zeroRunSizeBits
      else setRunLength pattern (getRunLength back + 1)
  else pattern

/-- mirrors fpc.cc:45-78 -/
def addEntry (zeroRunSizeBits : Nat) (compData : CompData n) (pattern : Pattern n) : CompData n :=
  compData.addEntry (countRun zeroRunSizeBits compData.entries pattern)

/-- mirrors fpc.hh:114-129 and fpc.cc:85-99 -/
def scheme (zeroRunSizeBits : Nat) : Scheme 4 where
  patterns := [zeroRun, signExtended4Bits, signExtended1Byte, signExtendedHalfword, zeroPaddedHalfword,
    signExtendedTwoHalfwords, repBytes]
  last := uncompressed
  addToDictionary d _ := .ok d
  resetDictionary := resetToZero
  addEntry := addEntry zeroRunSizeBits
  adjust _ _ compData := compData

end FPC

/-! ## FPC-D -/

namespace FPCD

/-- mirrors fpcd.hh:99-104 -/
inductive PatternNumber
  | ZZZZ | FFFF | MMMMPenultimate | MMMMPrevious | ZZZX | XZZZ | RRRR | MMMXPenultimate | MMMXPrevious | ZZXX | ZXZX
  | FFXX | XXZZ | MMXXPenultimate | MMXXPrevious | XXXX

/-! The constants. mirrors fpcd.hh:64-70 -/

def prefixSize : Nat := 4

def previousIndex : Nat := 1

def penultimateIndex : Nat := 0

def valued (value mask : Word 4) (number : PatternNumber) (code : Nat) : PatternClass 4 where
  isPattern := MaskedValuePattern.isPattern value mask
  new bytes matchLocation :=
    MaskedValuePattern.new value mask number.ctorIdx code prefixSize matchLocation bytes true

def located (mask : Word 4) (location : Nat) (number : PatternNumber) (code : Nat) :
    PatternClass 4 where
  isPattern := LocatedMaskedPattern.isPattern mask location
  new bytes matchLocation := MaskedPattern.new mask number.ctorIdx code prefixSize matchLocation bytes true

/-! The patterns. mirrors fpcd.hh:153-323 -/

def patternZZZZ : PatternClass 4 := valued 0#32 0xFFFFFFFF#32 .ZZZZ 0x0

def patternFFFF : PatternClass 4 := valued 0xFFFFFFFF#32 0xFFFFFFFF#32 .FFFF 0x1

def patternMMMMPrevious : PatternClass 4 := located 0xFFFFFFFF#32 previousIndex .MMMMPrevious 0x2

def patternMMMMPenultimate : PatternClass 4 :=
  located 0xFFFFFFFF#32 penultimateIndex .MMMMPenultimate 0x3

def patternZZZX : PatternClass 4 := valued 0#32 0xFFFFFF00#32 .ZZZX 0x4

def patternXZZZ : PatternClass 4 := valued 0#32 0x00FFFFFF#32 .XZZZ 0x5

def patternRRRR : PatternClass 4 where
  isPattern := RepeatedValuePattern.isPattern 1
  new bytes matchLocation :=
    RepeatedValuePattern.new 1 PatternNumber.RRRR.ctorIdx 0x6 prefixSize matchLocation bytes true

def patternMMMXPrevious : PatternClass 4 := located 0xFFFFFF00#32 previousIndex .MMMXPrevious 0x7

def patternMMMXPenultimate : PatternClass 4 :=
  located 0xFFFFFF00#32 penultimateIndex .MMMXPenultimate 0x8

def patternZZXX : PatternClass 4 := valued 0#32 0xFFFF0000#32 .ZZXX 0x9

def patternZXZX : PatternClass 4 := valued 0#32 0xFF00FF00#32 .ZXZX 0xA

def patternFFXX : PatternClass 4 := valued 0xFFFFFFFF#32 0xFFFF0000#32 .FFXX 0xB

def patternXXZZ : PatternClass 4 := valued 0#32 0x0000FFFF#32 .XXZZ 0xC

def patternMMXXPrevious : PatternClass 4 := located 0xFFFF0000#32 previousIndex .MMXXPrevious 0xD

def patternMMXXPenultimate : PatternClass 4 :=
  located 0xFFFF0000#32 penultimateIndex .MMXXPenultimate 0xE

def patternXXXX : PatternClass 4 where
  isPattern := UncompressedPattern.isPattern
  new bytes matchLocation := UncompressedPattern.new PatternNumber.XXXX.ctorIdx 0xF prefixSize matchLocation bytes

/-- A table of two entries, first in first out. mirrors fpcd.cc:49-59 -/
def addToDictionary (data : DictionaryEntry n) : Except Fault (Dictionary n size) :=
  if d.numEntries = 2 then do
    let previous ← d.get previousIndex
    let d ← d.set penultimateIndex previous
    d.set previousIndex data
  else d.push data

/-- mirrors fpcd.hh:110-145 -/
def scheme : Scheme 4 where
  patterns := [patternZZZZ, patternFFFF, patternMMMMPrevious, patternMMMMPenultimate, patternZZZX, patternXZZZ,
    patternRRRR, patternMMMXPrevious, patternMMMXPenultimate, patternZZXX, patternZXZX, patternFFXX, patternXXZZ,
    patternMMXXPrevious, patternMMXXPenultimate]
  last := patternXXXX
  addToDictionary := addToDictionary
  resetDictionary := resetToZero
  addEntry := CompData.addEntry
  adjust _ _ compData := compData

end FPCD

/-! ## Base-delta -/

namespace BaseDelta

/-- mirrors base_delta.hh:87-90 -/
inductive PatternNumber | X | M

/-- mirrors base_delta.hh:72 -/
def DEFAULT_MAX_NUM_BASES : Nat := 2

/-- `std::ceil(std::log2(DEFAULT_MAX_NUM_BASES))` -/
def baseBits : Nat := DEFAULT_MAX_NUM_BASES.log2

/-- mirrors base_delta.hh:133-146 -/
def patternX (n deltaSizeBits : Nat) : PatternClass n where
  isPattern := UncompressedPattern.isPattern
  new bytes matchLocation :=
    UncompressedPattern.new PatternNumber.X.ctorIdx 0 (baseBits + deltaSizeBits) matchLocation bytes

/-- mirrors base_delta.hh:148-161 -/
def patternM (n deltaSizeBits : Nat) : PatternClass n where
  isPattern := DeltaPattern.isPattern deltaSizeBits
  new bytes matchLocation :=
    DeltaPattern.new deltaSizeBits PatternNumber.M.ctorIdx 1 baseBits matchLocation bytes

/-- A zero base for the immediate values. mirrors base_delta_impl.hh:52-60 -/
def resetDictionary : Except Fault (Dictionary n size) :=
  assertAndPush d.reset (toDictionaryEntry 0#(8 * n))

/-- mirrors base_delta_impl.hh:81-97 -/
def adjust (blkSize numEntries : Nat) (compData : CompData n) : CompData n :=
  let diff : Int := DEFAULT_MAX_NUM_BASES - numEntries
  if diff < 0 then { compData with sizeBits := blkSize * 8 }
  else if 0 < diff then { compData with sizeBits := compData.sizeBits + 8 * n * diff.toNat }
  else compData

/-- mirrors base_delta.hh:68-131 -/
def scheme (n deltaSizeBits : Nat) : Scheme n where
  patterns := [patternM n deltaSizeBits]
  last := patternX n deltaSizeBits
  addToDictionary := assertAndPush
  resetDictionary := resetDictionary
  addEntry := CompData.addEntry
  adjust := adjust

end BaseDelta

/-! ## All compressors -/

/-- FPC has the number of bits of a zero run as a parameter. -/
inductive Compressor
  | cpack | fpc (zeroRunSizeBits : Nat) | fpcd
  | base64Delta8 | base64Delta16 | base64Delta32 | base32Delta8 | base32Delta16 | base16Delta8
deriving DecidableEq, Repr

namespace Compressor

/-- The size of the entry type. mirrors base_delta.hh:163-209 -/
def bytes : Compressor → Nat
  | cpack | fpc _ | fpcd => 4
  | base64Delta8 | base64Delta16 | base64Delta32 => 8
  | base32Delta8 | base32Delta16 => 4
  | base16Delta8 => 2

def scheme : (c : Compressor) → Scheme c.bytes
  | cpack => CPack.scheme
  | fpc zeroRunSizeBits => FPC.scheme zeroRunSizeBits
  | fpcd => FPCD.scheme
  | base64Delta8 => BaseDelta.scheme 8 8
  | base64Delta16 => BaseDelta.scheme 8 16
  | base64Delta32 => BaseDelta.scheme 8 32
  | base32Delta8 => BaseDelta.scheme 4 8
  | base32Delta16 => BaseDelta.scheme 4 16
  | base16Delta8 => BaseDelta.scheme 2 8

end Compressor

end Gem5Cxl.L2.Compressors
