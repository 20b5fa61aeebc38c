import Gem5Cxl.L3Protocol.PatternRecovery

/-!
# Dictionary compression is lossless

Decompression meets, at each pattern, the dictionary compression had when it chose
that pattern: both start from the same dictionary and add the same entries. So each
pattern gives its value back, and the values are the chunks of the block.

* `Regular`: what the loops need of a compressor; `regular` shows it for all nine.
* `compressValue_spec`, `compressValues_spec`: compression fails only at the
  assertion on the dictionary's room, and decompression follows it step by step.
* `toChunks_spec`, `concatenate_spec`: chunks are parts of the block's words, and
  parts give the words back.
* `lossless`: `decompress` of what `compress` returned is the block.
* `room_enough`: an entry for each chunk, and one for a zero base, are enough.
-/
namespace Gem5Cxl.L3.Lossless

open Core Core.WordParts L1 L2.Compressors Scheme List

variable {n size : Nat} {i : Nat} (c : Compressor) (d : Dictionary n size)

/-! ## What the loops need -/

/-- The run counts of a pattern are no part of its value. -/
structure Same (p q : Pattern n) : Prop where
  location : q.matchLocation = p.matchLocation
  allocate : q.allocate = p.allocate
  value : ∀ dictBytes, q.decompress dictBytes = p.decompress dictBytes

theorem Same.refl (p : Pattern n) : Same p p := ⟨rfl, rfl, fun _ => rfl⟩

abbrev noRoom : Fault := .assertion .dictionaryHasRoom

/-- `I` holds of the dictionaries the compressor builds. -/
structure Regular (c : Scheme n) (I : Dictionary n size → Prop) : Prop where
  sound : ∀ k ∈ c.patterns, Sound k
  keeps : Keeps c.last
  bound : ∀ d, I d → d.numEntries ≤ size
  add : ∀ d entry, I d →
    (∃ d', c.addToDictionary d entry = .ok d' ∧ I d' ∧ d'.numEntries ≤ d.numEntries + 1) ∨
      (c.addToDictionary d entry = .error noRoom ∧ size ≤ d.numEntries)
  reset : (∃ d', (∀ d : Dictionary n size, c.resetDictionary d = .ok d') ∧ I d' ∧ d'.numEntries ≤ 1) ∨
    ((∀ d : Dictionary n size, c.resetDictionary d = .error noRoom) ∧ size = 0)
  entry : ∀ compData p, ∃ q, (c.addEntry compData p).entries = compData.entries ++ [q] ∧ Same p q
  adjust : ∀ blkSize numEntries compData, (c.adjust blkSize numEntries compData).entries = compData.entries

theorem set_of_lt (h : i < size) (entry : DictionaryEntry n) :
    ∃ d', d.set i entry = .ok d' ∧ d'.numEntries = d.numEntries := by
  rw [Dictionary.set, if_pos h]
  exact ⟨_, rfl, rfl⟩

theorem push_of_lt (h : d.numEntries < size) (entry : DictionaryEntry n) :
    ∃ d', d.push entry = .ok d' ∧ d'.numEntries = d.numEntries + 1 := by
  obtain ⟨d', hset, -⟩ := set_of_lt d h entry
  rw [Dictionary.push, hset]
  exact ⟨_, rfl, rfl⟩

theorem get_of_lt (h : i < size) : ∃ entry, d.get i = .ok entry := by
  have hlt : i < d.entries.length := lt_of_lt_of_eq h d.full.symm
  refine ⟨d.entries[i], ?_⟩
  rw [Dictionary.get, getElem?_eq_getElem hlt]

theorem assertAndPush_spec (entry : DictionaryEntry n) :
    (∃ d', assertAndPush d entry = .ok d' ∧ d'.numEntries ≤ size ∧
      d'.numEntries ≤ d.numEntries + 1) ∨
      (assertAndPush d entry = .error noRoom ∧ size ≤ d.numEntries) := by
  rw [assertAndPush]
  by_cases h : d.numEntries < size
  · obtain ⟨d', hpush, hnum⟩ := push_of_lt d h entry
    rw [if_pos h]
    exact .inl ⟨d', hpush, by omega, by omega⟩
  · rw [if_neg h]
    exact .inr ⟨rfl, Nat.le_of_not_lt h⟩

theorem fpcd_addToDictionary_spec (hsize : 2 ≤ size) (d : Dictionary n size)
    (entry : DictionaryEntry n) (h : d.numEntries ≤ 2) :
    ∃ d', FPCD.addToDictionary d entry = .ok d' ∧ d'.numEntries ≤ 2 ∧
      d'.numEntries ≤ d.numEntries + 1 := by
  rw [FPCD.addToDictionary]
  by_cases hfull : d.numEntries = 2
  · obtain ⟨previous, hget⟩ := get_of_lt d (i := FPCD.previousIndex) hsize
    obtain ⟨d₁, hset, hnum⟩ := set_of_lt d (i := FPCD.penultimateIndex) (lt_of_lt_of_le Nat.two_pos hsize) previous
    obtain ⟨d₂, hset', hnum'⟩ := set_of_lt d₁ hsize entry
    rw [if_pos hfull, hget, ok_bind, hset]
    exact ⟨d₂, hset', by omega, by omega⟩
  · obtain ⟨d', hpush, hnum⟩ := push_of_lt d (by omega) entry
    rw [if_neg hfull]
    exact ⟨d', hpush, by omega, by omega⟩

theorem same_countRun (zeroRunSizeBits : Nat) (entries : List (Pattern n)) (p : Pattern n) :
    Same p (FPC.countRun zeroRunSizeBits entries p) := by
  have hcounts : ∀ {bits r s}, p.data = .zeroRun bits r s → ∀ r' s', Same p { p with data := .zeroRun bits r' s' } :=
    fun hdata _ _ => ⟨rfl, rfl, fun _ => by rw [Pattern.decompress, Pattern.decompress, hdata]⟩
  have hreal : ∀ k, Same p (FPC.setRealSize p k) := by
    intro k
    rw [FPC.setRealSize]
    split
    · exact hcounts ‹_› ..
    · exact .refl p
  have hrun : ∀ k, Same p (FPC.setRunLength p k) := by
    intro k
    rw [FPC.setRunLength]
    split
    · exact hcounts ‹_› ..
    · exact .refl p
  rw [FPC.countRun]
  split
  · split
    · exact hreal _
    · split
      · exact hreal _
      · split
        · exact hreal _
        · exact hrun _
  · exact .refl p

theorem resetToZero_spec (I : Dictionary n size → Prop)
    (hI : ∀ d : Dictionary n size, d.numEntries = 0 → I d) :
    ∃ d', (∀ d : Dictionary n size, resetToZero d = .ok d') ∧ I d' ∧ d'.numEntries ≤ 1 :=
  ⟨.new n size, fun _ => rfl, hI _ rfl, Nat.zero_le 1⟩

theorem regular_baseDelta (n deltaSizeBits size : Nat) :
    Regular (BaseDelta.scheme n deltaSizeBits)
      fun d : Dictionary n size => d.numEntries ≤ size := by
  refine ⟨sound_baseDelta n deltaSizeBits, fun _ _ => ⟨.inr rfl, fun _ => rfl⟩, fun _ h => h,
    fun d entry _ => assertAndPush_spec d entry, ?_, fun _ p => ⟨p, rfl, .refl p⟩, fun _ _ _ => ?_⟩
  · rcases assertAndPush_spec (.new n size) (toDictionaryEntry 0#(8 * n)) with
      ⟨d', hpush, hbound, hnum⟩ | ⟨hpush, hnum⟩
    · exact .inl ⟨d', fun _ => hpush, hbound, hnum⟩
    · exact .inr ⟨fun _ => hpush, Nat.le_zero.mp hnum⟩
  · simp only [BaseDelta.scheme, BaseDelta.adjust]
    split
    · rfl
    · split
      · rfl
      · rfl

theorem regular_cpack (size : Nat) :
    Regular CPack.scheme fun d : Dictionary 4 size => d.numEntries ≤ size :=
  ⟨sound_cpack, fun _ _ => ⟨.inr rfl, fun _ => rfl⟩, fun _ h => h, fun d entry _ => assertAndPush_spec d entry,
    .inl (resetToZero_spec _ fun _ h => h ▸ Nat.zero_le _), fun _ p => ⟨p, rfl, .refl p⟩, fun _ _ _ => rfl⟩

theorem regular_fpc (zeroRunSizeBits size : Nat) :
    Regular (FPC.scheme zeroRunSizeBits) fun d : Dictionary 4 size => d.numEntries ≤ size :=
  ⟨sound_fpc zeroRunSizeBits, fun _ _ => ⟨.inl rfl, fun _ => rfl⟩, fun _ h => h,
    fun d _ h => .inl ⟨d, rfl, h, Nat.le_succ _⟩, .inl (resetToZero_spec _ fun _ h => h ▸ Nat.zero_le _),
    fun compData p => ⟨_, rfl, same_countRun zeroRunSizeBits compData.entries p⟩, fun _ _ _ => rfl⟩

theorem regular_fpcd (hsize : 2 ≤ size) :
    Regular FPCD.scheme fun d : Dictionary 4 size => d.numEntries ≤ 2 :=
  ⟨sound_fpcd, fun _ _ => ⟨.inr rfl, fun _ => rfl⟩, fun _ h => le_trans h hsize,
    fun d entry h => .inl (fpcd_addToDictionary_spec hsize d entry h),
    .inl (resetToZero_spec _ fun _ h => h ▸ Nat.zero_le _), fun _ p => ⟨p, rfl, .refl p⟩, fun _ _ _ => rfl⟩

theorem regular (hfifo : c = .fpcd → 2 ≤ size) :
    ∃ I : Dictionary c.bytes size → Prop, Regular c.scheme I := by
  cases c with
  | cpack => exact ⟨_, regular_cpack size⟩
  | fpc zeroRunSizeBits => exact ⟨_, regular_fpc zeroRunSizeBits size⟩
  | fpcd => exact ⟨_, regular_fpcd (hfifo rfl)⟩
  | base64Delta8 => exact ⟨_, regular_baseDelta 8 8 size⟩
  | base64Delta16 => exact ⟨_, regular_baseDelta 8 16 size⟩
  | base64Delta32 => exact ⟨_, regular_baseDelta 8 32 size⟩
  | base32Delta8 => exact ⟨_, regular_baseDelta 4 8 size⟩
  | base32Delta16 => exact ⟨_, regular_baseDelta 4 16 size⟩
  | base16Delta8 => exact ⟨_, regular_baseDelta 2 8 size⟩

/-! ## One value -/

section Values

variable {c : Scheme n} {I : Dictionary n size → Prop} {d d' : Dictionary n size}
  {bytes : DictionaryEntry n}
  {dictBytes : DictionaryEntry n} {p : Pattern n}

theorem getPattern_recovers (hc : Regular c I) (bytes dictBytes : DictionaryEntry n)
    (matchLocation : Int) :
    Recovers (c.getPattern bytes dictBytes matchLocation) bytes dictBytes matchLocation := by
  have hsound := hc.sound
  rw [getPattern]
  generalize c.patterns = ks at hsound
  induction ks with
  | nil =>
    obtain ⟨hlocation, hvalue⟩ := hc.keeps bytes matchLocation
    exact ⟨hlocation, .inl hvalue⟩
  | cons k ks ih =>
    rw [Factory.getPattern]
    split
    · rename_i hmatch
      exact (hsound k mem_cons_self).recovers bytes dictBytes matchLocation hmatch
    · exact ih fun k' hk' => hsound k' (mem_cons_of_mem k hk')

/-- In this dictionary the pattern decompresses to the value. -/
def Ready (d : Dictionary n size) (bytes : DictionaryEntry n) (p : Pattern n) : Prop :=
  ∀ junk, ∃ dictBytes, Scheme.matchedBytes d junk p = .ok dictBytes ∧ p.decompress dictBytes = bytes

theorem Ready.of_noMatch (h : Recovers p bytes dictBytes (-1)) : Ready d bytes p := by
  intro junk
  have hlocation : p.matchLocation = -1 := h.location.elim id id
  refine ⟨junk, if_pos (by omega), ?_⟩
  rcases h.value with hvalue | ⟨hpos, -⟩
  · exact hvalue junk
  · omega

theorem Ready.of_entry (hi : i < 256)
    (hget : d.get i = .ok dictBytes) (h : Recovers p bytes dictBytes i) : Ready d bytes p := by
  intro junk
  rcases h.location with hlocation | hlocation
  · refine ⟨junk, if_pos (by omega), ?_⟩
    rcases h.value with hvalue | ⟨-, hsame, -⟩
    · exact hvalue junk
    · omega
  · have hindex : p.getMatchLocation = i := by
      rw [Pattern.getMatchLocation]
      omega
    refine ⟨dictBytes, ?_, ?_⟩
    · rw [matchedBytes, if_neg (by omega), hindex, hget]
    · rcases h.value with hvalue | ⟨-, -, hvalue⟩
      · exact hvalue dictBytes
      · exact hvalue

theorem search_spec (hc : Regular c I) (hI : I d) (hsize : size ≤ 256) (todo i : Nat)
    (p : Pattern n) (hp : Ready d bytes p) (htodo : i + todo = d.numEntries) :
    ∃ q, c.search d bytes todo i p = .ok q ∧ Ready d bytes q := by
  induction todo generalizing i p with
  | zero => exact ⟨p, rfl, hp⟩
  | succ todo ih =>
    have hbound := hc.bound d hI
    obtain ⟨entry, hget⟩ := get_of_lt d (show i < size by omega)
    have hnew : Ready d bytes (c.getPattern bytes entry i) :=
      .of_entry (by omega) hget (getPattern_recovers hc bytes entry i)
    rw [search, hget]
    refine ih (i + 1) _ ?_ (by omega)
    split
    · exact hnew
    · exact hp

theorem allocate_spec (hc : Regular c I) (hI : I d) (p : Pattern n) (bytes : DictionaryEntry n) :
    (∃ d', c.allocate d p bytes = .ok d' ∧ I d' ∧ d'.numEntries ≤ d.numEntries + 1) ∨
      (c.allocate d p bytes = .error noRoom ∧ size ≤ d.numEntries) := by
  rw [Scheme.allocate]
  split
  · exact hc.add d bytes hI
  · exact .inl ⟨d, rfl, hI, Nat.le_succ _⟩

/-- **One value.** The pattern decompresses to the value, in the dictionary before the value
was added. -/
theorem compressValue_spec (hc : Regular c I) (hI : I d) (hsize : size ≤ 256) (data : Word n) :
    (∃ p d', c.compressValue d data = .ok (p, d') ∧ Ready d (toDictionaryEntry data) p ∧
      c.allocate d p (toDictionaryEntry data) = .ok d' ∧ I d' ∧ d'.numEntries ≤ d.numEntries + 1) ∨
      (c.compressValue d data = .error noRoom ∧ size ≤ d.numEntries) := by
  have hnoMatch : Ready d (toDictionaryEntry data)
      (c.getPattern (toDictionaryEntry data) (toDictionaryEntry 0#(8 * n)) (-1)) :=
    .of_noMatch (getPattern_recovers hc _ _ _)
  obtain ⟨p, hsearch, hready⟩ := search_spec hc hI hsize d.numEntries 0 _ hnoMatch (zero_add _)
  rw [compressValue]
  simp only [hsearch, ok_bind]
  rcases allocate_spec hc hI p (toDictionaryEntry data) with ⟨d', hadd, hI', hnum⟩ | ⟨hadd, hfull⟩
  · rw [hadd]
    exact .inl ⟨p, d', rfl, hready, hadd, hI', hnum⟩
  · rw [hadd]
    exact .inr ⟨rfl, hfull⟩

theorem decompressValue_eq {q : Pattern n} {data : Word n} (hpq : Same p q)
    (hready : Ready d (toDictionaryEntry data) p)
    (hadd : c.allocate d p (toDictionaryEntry data) = .ok d')
    (junk : DictionaryEntry n) : c.decompressValue d junk q = .ok (data, d') := by
  obtain ⟨dictBytes, hmatched, hvalue⟩ := hready junk
  have hmatched' : matchedBytes d junk q = .ok dictBytes := by
    rw [matchedBytes, Pattern.getMatchLocation, hpq.location]
    exact hmatched
  have hadd' : c.allocate d q (toDictionaryEntry data) = .ok d' := by
    rw [Scheme.allocate, Pattern.shouldAllocate, hpq.allocate]
    exact hadd
  rw [decompressValue, hmatched']
  simp only [hpq.value, hvalue, hadd', ok_bind, from_to]
  rfl

/-- **The chunks.** Decompression follows compression from any dictionary it may have. -/
theorem compressValues_spec (hc : Regular c I) (hsize : size ≤ 256) (compData : CompData n)
    (values : List (BitVec 64)) (hI : I d) :
    (∃ compData' d' entries, c.compressValues d compData values = .ok (compData', d') ∧
      compData'.entries = compData.entries ++ entries ∧
      ∀ junk i, c.decompressValues d junk i entries = .ok (values.map (·.setWidth (8 * n)), d')) ∨
      (c.compressValues d compData values = .error noRoom ∧
        size < d.numEntries + values.length) := by
  induction values generalizing d compData with
  | nil => exact .inl ⟨compData, d, [], rfl, (append_nil _).symm, fun _ _ => rfl⟩
  | cons value values ih =>
    rw [compressValues, length_cons]
    rcases compressValue_spec hc hI hsize (value.setWidth (8 * n)) with
      ⟨p, d₁, hvalue, hready, hadd, hI₁, hnum⟩ | ⟨hvalue, hfull⟩
    · rw [hvalue]
      obtain ⟨q, hentry, hpq⟩ := hc.entry compData p
      rcases ih (c.addEntry compData p) hI₁ with ⟨compData', d', entries, hrest, hentries, hdec⟩ | ⟨hrest, hfull⟩
      · refine .inl ⟨compData', d', q :: entries, hrest, ?_, fun junk i => ?_⟩
        · rw [hentries, hentry, append_assoc]
          rfl
        · rw [decompressValues, decompressValue_eq hpq hready hadd (junk i)]
          simp only [hdec, ok_bind]
          rfl
      · exact .inr ⟨hrest, by omega⟩
    · rw [hvalue]
      exact .inr ⟨rfl, by omega⟩

end Values

/-! ## Chunks and words -/

section Chunks

variable {k : Nat} (data : List (BitVec 64)) {values : List (Word n)} {m : Nat}

theorem bits_eq_part (hm : 0 < m) (hm' : m ≤ 64) (word : BitVec 64) (j : Nat) :
    (bits word ((j + 1) * m - 1) (j * m)).setWidth m = part m word j := by
  have hwidth : (j + 1) * m - 1 - j * m + 1 = m := by
    rw [Nat.succ_mul]
    omega
  rw [bits, hwidth, setWidth_and_mask hm', part, mul_comm]

theorem chunksFrom_spec (hk : k * m = 64) (todo i : Nat) (hdata : i + todo ≤ k * data.length) :
    ∃ chunks, chunksFrom m data todo i = .ok chunks ∧ chunks.length = todo ∧
      ∀ j < todo, (chunks.map (·.setWidth m))[j]? =
        (data[(i + j) / k]?).map fun word => part m word ((i + j) % k) := by
  have hm : 0 < m := Nat.pos_of_ne_zero fun h => by simp [h] at hk
  have hk' : 0 < k := Nat.pos_of_ne_zero fun h => by simp [h] at hk
  have hle : m ≤ 64 := hk ▸ Nat.le_mul_of_pos_left m hk'
  have hnum : 64 / m = k := by rw [← hk, Nat.mul_div_cancel _ hm]
  induction todo generalizing i with
  | zero => exact ⟨[], rfl, rfl, fun j hj => absurd hj (Nat.not_lt_zero j)⟩
  | succ todo ih =>
    obtain ⟨chunks, hrest, hlength, hparts⟩ := ih (i + 1) (by omega)
    have hlt : i / k < data.length := Nat.div_lt_of_lt_mul (by omega)
    refine ⟨bits data[i / k] ((i % k + 1) * m - 1) (i % k * m) :: chunks, ?_, by rw [length_cons, hlength], ?_⟩
    · rw [chunksFrom]
      simp only [hnum, getElem?_eq_getElem hlt, hrest, ok_bind]
      rfl
    · intro j hj
      cases j with
      | zero => simp [getElem?_eq_getElem hlt, bits_eq_part hm hle]
      | succ j =>
        have hshift : i + (j + 1) = i + 1 + j := by omega
        rw [map_cons, getElem?_cons_succ, hparts j (by omega), hshift]

theorem gather_eq (word : BitVec 64) (first k : Nat) (acc : BitVec 64)
    (h : ∀ j < k, values[first + j]? = some (part (8 * n) word j)) :
    gather values first k acc = .ok (overlay (part (8 * n) word) k acc) := by
  induction k generalizing acc with
  | zero => rfl
  | succ j ih =>
    rw [gather, h j (Nat.lt_succ_self j)]
    exact ih _ fun i hi => h i (Nat.lt_succ_of_lt hi)

theorem concatenate_spec (hk : k * (8 * n) = 64)
    (h : ∀ i < data.length, ∀ j < k,
      values[k * i + j]? = (data[i]?).map fun word => part (8 * n) word j)
    (todo i : Nat) (htodo : i + todo = data.length) :
    concatenate values todo i = .ok (data.drop i) := by
  have hvalues : 8 / n = k := by
    have hn : 0 < n := Nat.pos_of_ne_zero fun h => by simp [h] at hk
    rw [← Nat.mul_div_mul_left 8 n (show 0 < 8 by decide), show 8 * 8 = k * (8 * n) from hk.symm,
      Nat.mul_div_cancel _ (by omega)]
  induction todo generalizing i with
  | zero => rw [concatenate, drop_eq_nil_of_le (by omega)]
  | succ todo ih =>
    have hlt : i < data.length := by omega
    have hword : gather values (k * i) k 0#64 = .ok data[i] := by
      rw [gather_eq data[i] (k * i) k 0#64, overlay_part (by omega)]
      intro j hj
      rw [h i hlt j hj, getElem?_eq_getElem hlt]
      rfl
    rw [concatenate]
    simp only [hvalues, hword, ih (i + 1) (by omega), ok_bind]
    rw [drop_eq_getElem_cons hlt]
    rfl

end Chunks

/-! ## Blocks -/

section Blocks

variable {blkSize : Nat} {data : List (BitVec 64)} {k : Nat}

theorem numChunks_eq (hk : k * (8 * n) = 64) (hblk : 8 ∣ blkSize)
    (hdata : data.length = blkSize / 8) :
    blkSize * 8 / (8 * n) = k * data.length := by
  have hm : 0 < 8 * n := Nat.pos_of_ne_zero fun h => by simp [h] at hk
  have hbits : blkSize * 8 = k * data.length * (8 * n) := by
    rw [Nat.mul_right_comm, hk]
    omega
  rw [hbits, Nat.mul_div_cancel _ hm]

theorem compressBlock_spec {c : Scheme n} {I : Dictionary n size → Prop} (hc : Regular c I)
    (hsize : size ≤ 256)
    (hk : k * (8 * n) = 64) (hblk : 8 ∣ blkSize) (hdata : data.length = blkSize / 8)
    (sizeThreshold : Nat) (before : Dictionary n size) :
    (∃ compData after,
      c.compressBlock blkSize (8 * n) sizeThreshold before data = .ok (compData, after) ∧
      ∀ (between : Dictionary n size) junk, ∃ after',
        c.decompress blkSize between junk compData = .ok (data, after')) ∨
      (c.compressBlock blkSize (8 * n) sizeThreshold before data = .error noRoom ∧
        size ≤ blkSize * 8 / (8 * n)) := by
  have hnum := numChunks_eq hk hblk hdata
  obtain ⟨chunks, hchunks, hlength, hparts⟩ := chunksFrom_spec data hk (k * data.length) 0 (by omega)
  rw [compressBlock, L2.Compressors.toChunks, hnum, hchunks]
  simp only [compress]
  rcases hc.reset with ⟨d, hreset, hI, hone⟩ | ⟨hreset, hzero⟩
  · simp only [hreset before, ok_bind]
    rcases compressValues_spec hc hsize ⟨[], 0⟩ chunks hI with ⟨compData, d', entries, hcomp, hentries, hdec⟩ | ⟨hcomp, hfull⟩
    · rw [hcomp]
      refine .inl ⟨_, _, rfl, fun between junk => ⟨d', ?_⟩⟩
      have hwords : concatenate (chunks.map (·.setWidth (8 * n))) (blkSize / 8) 0 = .ok data := by
        refine (concatenate_spec data hk (fun i hi j hj => ?_) (blkSize / 8) 0 (by omega)).trans (by rw [drop_zero])
        have hdiv : (k * i + j) / k = i := by rw [Nat.mul_add_div (by omega), Nat.div_eq_of_lt hj, add_zero]
        have hmod : (k * i + j) % k = j := by rw [Nat.mul_add_mod, Nat.mod_eq_of_lt hj]
        have hlt : k * i + j < k * data.length := by
          have hle : k * (i + 1) ≤ k * data.length := Nat.mul_le_mul_left k hi
          rw [Nat.mul_succ] at hle
          omega
        rw [hparts _ hlt, zero_add, hdiv, hmod]
      rw [decompress, hreset between]
      simp only [hc.adjust, hentries, nil_append, hdec, ok_bind, hwords]
      rfl
    · rw [hcomp]
      exact .inr ⟨rfl, by omega⟩
  · simp only [hreset before, hzero]
    exact .inr ⟨rfl, Nat.zero_le _⟩

theorem bytes_mul : ∃ k, k * (8 * c.bytes) = 64 := by
  cases c with
  | cpack | fpc | fpcd | base32Delta8 | base32Delta16 => exact ⟨2, rfl⟩
  | base64Delta8 | base64Delta16 | base64Delta32 => exact ⟨1, rfl⟩
  | base16Delta8 => exact ⟨4, rfl⟩

/-- **Lossless.** `compress` of a block returns unless the dictionary is too small, and
`decompress` of what it returned is the block. Neither depends on the dictionary a previous
call left (`before`, `between`), nor on the bytes handed to patterns that had no match
location (`junk`). -/
theorem lossless (c : Compressor) (hsize : size ≤ 256) (hfifo : c = .fpcd → 2 ≤ size)
    (hblk : 8 ∣ blkSize)
    (hdata : data.length = blkSize / 8) (sizeThreshold : Nat) (before : Dictionary c.bytes size)
    (hroom : c.scheme.compressBlock blkSize (8 * c.bytes) sizeThreshold before data ≠
      .error noRoom) :
    ∃ compData after,
      c.scheme.compressBlock blkSize (8 * c.bytes) sizeThreshold before data =
        .ok (compData, after) ∧
      ∀ (between : Dictionary c.bytes size) (junk : Nat → DictionaryEntry c.bytes),
        ∃ after', c.scheme.decompress blkSize between junk compData = .ok (data, after') := by
  obtain ⟨I, hc⟩ := regular c hfifo
  obtain ⟨k, hk⟩ := bytes_mul c
  rcases compressBlock_spec hc hsize hk hblk hdata sizeThreshold before with hok | ⟨herr, -⟩
  · exact hok
  · exact absurd herr hroom

/-- A dictionary with an entry for each chunk and one for a zero base is large enough. -/
theorem room_enough (hsize : size ≤ 256) (hfifo : c = .fpcd → 2 ≤ size) (hblk : 8 ∣ blkSize)
    (hdata : data.length = blkSize / 8) (sizeThreshold : Nat) (before : Dictionary c.bytes size)
    (hlarge : blkSize / c.bytes < size) :
    c.scheme.compressBlock blkSize (8 * c.bytes) sizeThreshold before data ≠ .error noRoom := by
  obtain ⟨I, hc⟩ := regular c hfifo
  obtain ⟨k, hk⟩ := bytes_mul c
  have hchunks : blkSize * 8 / (8 * c.bytes) = blkSize / c.bytes := by
    rw [mul_comm, Nat.mul_div_mul_left _ _ (by decide)]
  rcases compressBlock_spec hc hsize hk hblk hdata sizeThreshold before with ⟨compData, after, hok, -⟩ | ⟨-, hfull⟩
  · rw [hok]
    exact nofun
  · omega

def mixedBlock : List (BitVec 64) := [0x1234569912345678#64, 0x1234569900000042#64]

/-- CPack with 16 entries: a new word, one that shares its upper bytes, a small one and a
repetition. -/
theorem lossless_cpack :
    ∃ compData after,
    CPack.scheme.compressBlock 16 32 8 (.new 4 16) mixedBlock = .ok (compData, after) ∧
    compData.entries.map Pattern.code = [0x1, 0xE, 0xD, 0x2] ∧
    ∀ (between : Dictionary 4 16) (junk : Nat → DictionaryEntry 4),
      ∃ after', CPack.scheme.decompress 16 between junk compData = .ok (mixedBlock, after') := by
  have hroom := room_enough .cpack (by decide) nofun (by decide) (show mixedBlock.length = 16 / 8 from rfl)
    8 (.new 4 16) (by decide)
  obtain ⟨compData, after, hcomp, hdec⟩ := lossless .cpack (by decide) nofun (by decide) rfl 8 _ hroom
  have hcomp' : CPack.scheme.compressBlock 16 32 8 (.new 4 16) mixedBlock = .ok (compData, after) := hcomp
  have hcodes : (CPack.scheme.compressBlock 16 32 8 (.new 4 16) mixedBlock).map
      (fun r => r.1.entries.map Pattern.code) = .ok [0x1, 0xE, 0xD, 0x2] := rfl
  rw [hcomp'] at hcodes
  exact ⟨compData, after, hcomp', Except.ok.inj hcodes, hdec⟩

end Blocks

end Gem5Cxl.L3.Lossless
