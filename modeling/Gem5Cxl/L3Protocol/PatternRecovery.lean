import Gem5Cxl.L2Machine.Compressors

/-!
# Every pattern gives its value back

A pattern that the factory instantiates for a value decompresses to that value:
either whatever bytes it is handed, or if it is handed the bytes of the entry it was
matched against.

* `to_from`, `from_to`: values and dictionary entries are the same.
* `szext_eq`, `sext_eq`: the two sign extensions are that of the low bits.
* `Recovers`, `Sound`: what an instance and a class of patterns are held to.
* `recovers_masked`, …: one lemma for each family of patterns.
* `sound_cpack`, …: the classes of a compressor are sound.
-/
namespace Gem5Cxl.L3.Lossless

open Core.WordParts L2.Compressors MaskedPattern List BitVec

variable {n : Nat} {N w : Nat} (v : BitVec 64)

/-! ## Entries and bit fields -/

theorem from_to (value : Word n) : fromDictionaryEntry (toDictionaryEntry value) = value :=
  join_parts (by decide) le_rfl value

theorem to_from (entry : DictionaryEntry n) :
    toDictionaryEntry (fromDictionaryEntry entry) = entry := by
  obtain ⟨bytes, rfl⟩ := entry
  exact Subtype.ext (parts_join (by decide) bytes le_rfl)

theorem getLsbD_mask (k i : Nat) : (mask k).getLsbD i = decide (i < 64 ∧ i < k) := by
  rw [mask]
  split
  · have hiff : i < 64 ↔ i < 64 ∧ i < k := by omega
    rw [getLsbD_allOnes]
    exact decide_eq_decide.mpr hiff
  · rename_i hk
    have hpow : 2 ^ k < 2 ^ 64 := Nat.pow_lt_pow_right (by decide) (Nat.lt_of_not_le hk)
    have hnat : (1#64 <<< k - 1#64).toNat = 2 ^ k - 1 := by
      have hpos : 0 < 2 ^ k := Nat.two_pow_pos k
      rw [toNat_sub_of_le]
      · rw [toNat_shiftLeft]
        simp only [toNat_ofNat]
        omega
      · rw [le_def, toNat_shiftLeft]
        simp only [toNat_ofNat]
        omega
    have hiff : i < k ↔ i < 64 ∧ i < k := by omega
    rw [← testBit_toNat, hnat, Nat.testBit_two_pow_sub_one]
    exact decide_eq_decide.mpr hiff

theorem bits_ne_zero (i : Nat) : bits v i i ≠ 0#64 ↔ v.getLsbD i = true := by
  have hmask : mask (i - i + 1) = 1#64 := by rw [Nat.sub_self]; decide
  rw [bits, hmask, and_one_eq_setWidth_ofBool_getLsbD, getLsbD_ushiftRight]
  cases v.getLsbD i with
  | false => decide
  | true => decide

theorem szext_eq (hN : 0 < N) (hN' : N ≤ 64) (v : BitVec 64) :
    szext N v = (v.setWidth N).signExtend 64 := by
  refine eq_of_getLsbD_eq fun i hi => ?_
  rw [szext, getLsbD_signExtend, msb_eq_getLsbD_last]
  have hlast : N - 1 < N := by omega
  by_cases hsign : v.getLsbD (N - 1) = true
  · rw [if_pos ((bits_ne_zero v _).mpr hsign), getLsbD_or, getLsbD_not, getLsbD_mask]
    by_cases hiN : i < N
    · simp [hi, hiN]
    · simp [hi, hiN, hsign, hlast]
  · rw [if_neg (mt (bits_ne_zero v _).mp hsign), getLsbD_and, getLsbD_mask]
    by_cases hiN : i < N
    · simp [hi, hiN]
    · simp [hi, hiN, hsign]

/-- `sext` does too, if the bits above are zero. -/
theorem sext_eq (hN : 0 < N) (hN' : N ≤ 64) (b : BitVec N) :
    sext N (b.setWidth 64) = b.signExtend 64 := by
  have hlow : (b.setWidth 64) &&& mask N = b.setWidth 64 := by
    refine eq_of_getLsbD_eq fun i hi => ?_
    rw [getLsbD_and, getLsbD_mask]
    by_cases hiN : i < N
    · simp [hi, hiN]
    · simp [getLsbD_of_ge b i (Nat.le_of_not_lt hiN)]
  have hsame : sext N (b.setWidth 64) = szext N (b.setWidth 64) := by
    rw [sext, szext, hlow]
  rw [hsame, szext_eq hN hN']
  rw [setWidth_setWidth_of_le b hN', setWidth_eq]

theorem setWidth_and_mask (hN : N ≤ 64) (v : BitVec 64) :
    (v &&& mask N).setWidth N = v.setWidth N := by
  refine eq_of_getLsbD_eq fun i hi => ?_
  have hi' : i < 64 := lt_of_lt_of_le hi hN
  rw [getLsbD_setWidth, getLsbD_and, getLsbD_mask]
  simp [hi, hi']

theorem masked_or_masked (v m : BitVec w) : v &&& ~~~ m ||| v &&& m = v := by
  refine eq_of_getLsbD_eq fun i hi => ?_
  rw [getLsbD_or, getLsbD_and, getLsbD_and, getLsbD_not]
  cases m.getLsbD i with
  | false => simp [hi]
  | true => simp

/-! ## Families of patterns -/

/-- The pattern decompresses to the value it was made for: whatever bytes it is handed, or
from those it was matched against. -/
structure Recovers (p : Pattern n) (bytes dictBytes : DictionaryEntry n) (matchLocation : Int) :
    Prop where
  location : p.matchLocation = -1 ∨ p.matchLocation = matchLocation
  value : (∀ junk, p.decompress junk = bytes) ∨
    0 ≤ matchLocation ∧ p.matchLocation = matchLocation ∧ p.decompress dictBytes = bytes

/-- A class whose test is a condition for that. -/
structure Sound (k : PatternClass n) : Prop where
  recovers : ∀ bytes dictBytes matchLocation, k.isPattern bytes dictBytes matchLocation = true →
    Recovers (k.new bytes matchLocation) bytes dictBytes matchLocation

section Families

variable {number code metadataLength : Nat} {bytes : DictionaryEntry n} {allocate : Bool}
  (dictBytes : DictionaryEntry n) (matchLocation : Int) {m : Word n}

theorem recovers_masked (h : isPattern m bytes dictBytes matchLocation = true) :
    Recovers (new m number code metadataLength matchLocation bytes allocate) bytes dictBytes
      matchLocation := by
  simp only [isPattern, Bool.and_eq_true, decide_eq_true_iff, beq_iff_eq] at h
  obtain ⟨hpos, hmatch⟩ := h
  refine ⟨.inr rfl, .inr ⟨hpos, rfl, ?_⟩⟩
  rw [Pattern.decompress, new]
  simp only [decompress]
  rw [← hmatch, masked_or_masked, to_from]

theorem recovers_maskedValue {value : Word n}
    (h : MaskedValuePattern.isPattern value m bytes dictBytes matchLocation = true) :
    MaskedValuePattern.decompress value m (fromDictionaryEntry bytes &&& ~~~ m) = bytes := by
  simp only [MaskedValuePattern.isPattern, beq_iff_eq] at h
  rw [MaskedValuePattern.decompress, decompress]
  simp only [from_to]
  rw [h, masked_or_masked, to_from]

theorem recovers_repeatedValue {size : Nat} (hsize : 0 < size) (hdvd : size ∣ n)
    (h : RepeatedValuePattern.isPattern size bytes dictBytes matchLocation = true) :
    RepeatedValuePattern.decompress size
      ((fromDictionaryEntry bytes).setWidth (8 * size)) = bytes := by
  simp only [RepeatedValuePattern.isPattern, all_eq_true, beq_iff_eq] at h
  have hparts : parts (8 * size) (n / size) (fromDictionaryEntry bytes) =
      .replicate (n / size) ((fromDictionaryEntry bytes).setWidth (8 * size)) :=
    eq_replicate_iff.mpr ⟨length_parts _ _, h⟩
  have hfill : 8 * n ≤ 8 * size * (n / size) := by
    rw [mul_assoc, Nat.mul_div_cancel' hdvd]
  rw [RepeatedValuePattern.decompress, ← hparts, join_parts (by omega) hfill, to_from]

theorem recovers_signExtended (hN : 0 < N) (hN' : N ≤ 64)
    (h : SignExtendedPattern.isPattern N bytes dictBytes matchLocation = true) :
    SignExtendedPattern.decompress N
      (((fromDictionaryEntry bytes).setWidth 64 &&& mask N).setWidth N) = bytes := by
  simp only [SignExtendedPattern.isPattern, beq_iff_eq] at h
  rw [SignExtendedPattern.decompress, setWidth_and_mask hN', sext_eq hN hN', ← szext_eq hN hN', ← h, to_from]

theorem eq_of_toInt_eq_toNat {x y : BitVec w} (h : x.toInt = y.toNat) : x = y := by
  rw [← ofInt_toInt (x := x), h, ofInt_natCast, ofNat_toNat, setWidth_eq]

theorem extended_eq :
    szext 8 ((v.setWidth 8).signExtend 64) = szext 8 ((v.setWidth 16).signExtend 64) := by
  rw [szext_eq (by decide) (by decide), szext_eq (by decide) (by decide)]
  congr 1
  refine eq_of_getLsbD_eq fun i hi => ?_
  have hi' : i < 16 := by omega
  have hi'' : i < 64 := by omega
  simp only [getLsbD_setWidth, getLsbD_signExtend, hi, hi', hi'', decide_true, if_true]

theorem halfwords (v : Word 4) :
    (((v >>> 16).setWidth 64).setWidth 16).setWidth (8 * 4) <<< 16 |||
      ((v.setWidth 64).setWidth 16).setWidth (8 * 4) = v := by
  refine eq_of_getLsbD_eq fun i hi => ?_
  have hi' : i < 64 := by omega
  simp only [getLsbD_or, getLsbD_shiftLeft, getLsbD_setWidth, getLsbD_ushiftRight]
  by_cases hlow : i < 16
  · simp only [hlow, hi, hi', decide_true, Bool.true_and, Bool.not_true, Bool.false_and, Bool.false_or]
  · have hhigh : i - 16 < 16 := by omega
    have hplace : 16 + (i - 16) = i := by omega
    have hw : i - 16 < 8 * 4 := by omega
    have hw' : i - 16 < 64 := by omega
    simp only [hlow, hi, hhigh, hplace, hw, hw', decide_true, decide_false, Bool.true_and, Bool.not_false,
      Bool.false_and, Bool.or_false]

theorem recovers_signExtendedTwoHalfwords {bytes : DictionaryEntry 4}
    (dictBytes : DictionaryEntry 4)
    (h : FPC.SignExtendedTwoHalfwords.isPattern bytes dictBytes matchLocation = true) :
    FPC.SignExtendedTwoHalfwords.decompress
      (((fromDictionaryEntry bytes).setWidth 64 &&& mask 8).setWidth 8,
        ((fromDictionaryEntry bytes >>> 16).setWidth 64 &&& mask 8).setWidth 8) = bytes := by
  simp only [FPC.SignExtendedTwoHalfwords.isPattern, Bool.and_eq_true, beq_iff_eq,
    setWidth_and_mask (show 16 ≤ 64 by decide)] at h
  obtain ⟨hlow, hhigh⟩ := h
  have hlow' := eq_of_toInt_eq_toNat hlow
  have hhigh' := eq_of_toInt_eq_toNat hhigh
  rw [FPC.SignExtendedTwoHalfwords.decompress]
  simp only [setWidth_and_mask (show 8 ≤ 64 by decide), extended_eq, ← hlow', ← hhigh']
  rw [halfwords, to_from]

end Families

/-! ## The compressors -/

theorem sound_masked (m : Word n) (number code metadataLength : Nat) (allocate : Bool) :
    Sound ⟨isPattern m, fun bytes matchLocation =>
      new m number code metadataLength matchLocation bytes allocate⟩ :=
  ⟨fun _ dict loc h => recovers_masked dict loc h⟩

theorem sound_maskedValue (value m : Word n) (number code metadataLength : Nat) (allocate : Bool) :
    Sound ⟨MaskedValuePattern.isPattern value m, fun bytes matchLocation =>
      MaskedValuePattern.new value m number code metadataLength matchLocation bytes allocate⟩ :=
  ⟨fun _ dict loc h => ⟨.inr rfl, .inl fun _ => recovers_maskedValue dict loc h⟩⟩

theorem sound_signExtended (hN : 0 < N) (hN' : N ≤ 64) (number code metadataLength : Nat)
    (allocate : Bool) :
    Sound (n := n) ⟨SignExtendedPattern.isPattern N, fun bytes _ =>
      SignExtendedPattern.new N number code metadataLength bytes allocate⟩ :=
  ⟨fun _ dict loc h => ⟨.inl rfl, .inl fun _ => recovers_signExtended dict loc hN hN' h⟩⟩

theorem sound_cpack : ∀ k ∈ CPack.scheme.patterns, Sound k := by
  simp only [CPack.scheme, forall_mem_cons]
  exact ⟨sound_maskedValue .., sound_masked .., sound_maskedValue .., sound_masked .., sound_masked ..,
    forall_mem_nil _⟩

theorem sound_fpc (zeroRunSizeBits : Nat) :
    ∀ k ∈ (FPC.scheme zeroRunSizeBits).patterns, Sound k := by
  have hzeroRun : Sound FPC.zeroRun := ⟨fun _ dict loc h => ⟨.inl rfl, .inl fun _ => recovers_maskedValue dict loc h⟩⟩
  have hzeroPadded : Sound FPC.zeroPaddedHalfword :=
    ⟨fun _ dict loc h => ⟨.inl rfl, .inl fun _ => recovers_maskedValue dict loc h⟩⟩
  have htwoHalfwords : Sound FPC.signExtendedTwoHalfwords :=
    ⟨fun _ dict loc h => ⟨.inl rfl, .inl fun _ => recovers_signExtendedTwoHalfwords loc dict h⟩⟩
  have hrepBytes : Sound FPC.repBytes :=
    ⟨fun _ dict loc h => ⟨.inl rfl, .inl fun _ => recovers_repeatedValue dict loc (by decide) (by decide) h⟩⟩
  simp only [FPC.scheme, forall_mem_cons]
  exact ⟨hzeroRun, sound_signExtended (by decide) (by decide) .., sound_signExtended (by decide) (by decide) ..,
    sound_signExtended (by decide) (by decide) .., hzeroPadded, htwoHalfwords, hrepBytes,
    forall_mem_nil _⟩

theorem sound_fpcd : ∀ k ∈ FPCD.scheme.patterns, Sound k := by
  have hvalued : ∀ value m number code, Sound (FPCD.valued value m number code) :=
    fun value m _ _ => sound_maskedValue value m ..
  have hlocated : ∀ m location number code, Sound (FPCD.located m location number code) := by
    refine fun m location number code => ⟨fun bytes dictBytes matchLocation h => ?_⟩
    exact recovers_masked dictBytes matchLocation (Bool.and_eq_true_iff.mp h).2
  have hrepeated : Sound FPCD.patternRRRR :=
    ⟨fun _ dict loc h => ⟨.inr rfl, .inl fun _ => recovers_repeatedValue dict loc (by decide) (by decide) h⟩⟩
  simp only [FPCD.scheme, forall_mem_cons]
  exact ⟨hvalued .., hvalued .., hlocated .., hlocated .., hvalued .., hvalued .., hrepeated, hlocated ..,
    hlocated .., hvalued .., hvalued .., hvalued .., hvalued .., hlocated .., hlocated ..,
    forall_mem_nil _⟩

theorem sound_baseDelta (n deltaSizeBits : Nat) :
    ∀ k ∈ (BaseDelta.scheme n deltaSizeBits).patterns, Sound k := by
  simp only [BaseDelta.scheme, forall_mem_cons]
  exact ⟨⟨fun _ _ _ _ => ⟨.inr rfl, .inl fun _ => rfl⟩⟩, forall_mem_nil _⟩

/-- The last class of a factory keeps the value. -/
def Keeps (k : PatternClass n) : Prop :=
  ∀ bytes matchLocation, ((k.new bytes matchLocation).matchLocation = -1 ∨
    (k.new bytes matchLocation).matchLocation = matchLocation) ∧
    ∀ junk, (k.new bytes matchLocation).decompress junk = bytes

end Gem5Cxl.L3.Lossless
