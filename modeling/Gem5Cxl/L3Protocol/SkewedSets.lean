import Mathlib.Data.Set.Function
import Gem5Cxl.Core.ShiftRegister
import Gem5Cxl.L2Machine.SkewedAssociative

/-!
# A skewed-associative cache recovers its blocks' addresses

* `Valid`: what the constructor makes sure of.
* `hash_eq`, `dehash_eq`: `hash` and `dehash` are the steps of a feedback shift
  register of the width of a set index.
* `deskew_skew`, `skew_deskew`: for every way, `deskew` undoes `skew`. Half of the
  eight hashes are of the form `x ↦ hash x ^ x`, and their inverse is a power of
  the register's step.
* `addresses_recovered`: the address of a block from its tag, set and way.
-/
namespace Gem5Cxl.L3.SkewedSets

open Core L1 L2.Indexing L2.Indexing.SkewedAssociative

/-! ## Bit fields -/

section Fields

variable {val i k m : Nat}

theorem testBit_mask (hk : k ≤ 64) : (mask k).testBit i = decide (i < k) := by
  have hmask : mask k = 2 ^ k - 1 := by
    unfold mask
    split
    · rw [le_antisymm hk ‹_›]
    · rfl
  rw [hmask, Nat.testBit_two_pow_sub_one]

theorem testBit_complement : (complement val).testBit i = (decide (i < 64) ^^ val.testBit i) := by
  rw [complement, Nat.testBit_xor, Nat.testBit_two_pow_sub_one]

theorem bits_eq {first : Nat} (hk : k ≤ first) (hf : first < 64) :
    bits val first k = val / 2 ^ k % 2 ^ (first - k + 1) := by
  refine Nat.eq_of_testBit_eq fun i => ?_
  rw [bits, Nat.testBit_and, testBit_mask (by omega), Nat.testBit_shiftRight, Nat.testBit_mod_two_pow,
    Nat.testBit_div_two_pow, Bool.and_comm, add_comm k]

theorem bits_one (hm : m < 64) : bits val m m = (val.testBit m).toNat := by
  rw [bits_eq le_rfl hm, Nat.sub_self, pow_one, Nat.toNat_testBit]

theorem testBit_mbits (hm : m < 63) :
    (mbits val m 0).testBit i = (val.testBit i && decide (i ≤ m)) := by
  rw [mbits, Nat.testBit_and, Nat.testBit_and, testBit_mask (by omega), testBit_complement,
    testBit_mask (by omega)]
  by_cases hi : i ≤ m
  · simp [hi, Nat.lt_succ_of_le hi, show i < 64 by omega]
  · simp [hi, show ¬ i < m + 1 by omega]

theorem testBit_insertBits (hm : m < 64) (hv : val < 2 ^ 64) (b : Bool) :
    (insertBits val m m b.toNat).testBit i = if i = m then b else val.testBit i := by
  have hbit : ∀ i, (mbits (2 ^ 64 - 1) m m).testBit i = decide (i = m) := by
    intro i
    rw [mbits, Nat.testBit_and, Nat.testBit_and, testBit_mask (by omega), testBit_complement,
      testBit_mask (by omega), Nat.testBit_two_pow_sub_one]
    by_cases hi : i = m
    · simp [hi, hm]
    · by_cases hlt : i < m
      · simp [hi, hlt, show i < 64 by omega]
      · simp [hi, show ¬ i < m + 1 by omega]
  have hlow : 64 ≤ i → val.testBit i = false := by
    intro hi
    exact Nat.testBit_lt_two_pow (lt_of_lt_of_le hv (Nat.pow_le_pow_right (by decide) hi))
  simp only [insertBits, Nat.testBit_or, Nat.testBit_and, testBit_complement, hbit,
    Nat.testBit_mod_two_pow, testBit_top]
  by_cases hi : i = m
  · simp [hi, hm]
  · by_cases hlt : i < 64
    · simp [hi, hlt]
    · simp [hi, hlt, hlow (Nat.le_of_not_lt hlt)]

end Fields

/-! ## The hashes as shift registers -/

/-- What the constructor makes sure of. A set index has `msbShift + 1` bits. -/
structure Valid (p : SkewedAssociative) : Prop where
  numSets : p.numSets = 2 ^ (p.msbShift + 1)
  setMask : p.setMask = 2 ^ (p.msbShift + 1) - 1
  tagShift : p.tagShift = p.setShift + (p.msbShift + 1)
  bits : p.setShift + 2 * (p.msbShift + 1) ≤ 64
  msb : 0 < p.msbShift

section Hashes

variable {p : SkewedAssociative} {x y u : Nat} {m : Nat}

theorem Valid.lt (h : Valid p) : p.msbShift < 32 := by
  have := h.bits
  omega

theorem Valid.word (h : Valid p) (hx : Word p.msbShift x) : x < 2 ^ 64 := by
  have hlt := h.lt
  exact lt_of_lt_of_le hx (Nat.pow_le_pow_right (by decide) (by omega))

theorem hash_eq (h : Valid p) (hx : Word p.msbShift x) : p.hash x = advance p.msbShift x := by
  have hlt := h.lt
  have hbits : bits x p.msbShift p.msbShift ^^^ bits x 0 0 =
      (x.testBit 0 ^^ x.testBit p.msbShift).toNat := by
    rw [bits_one (by omega), bits_one (by omega)]
    cases x.testBit 0 <;> cases x.testBit p.msbShift <;> rfl
  have hhalf : x >>> 1 < 2 ^ 64 := lt_of_le_of_lt (Nat.shiftRight_le x 1) (h.word hx)
  refine Nat.eq_of_testBit_eq fun i => ?_
  rw [SkewedAssociative.hash, hbits, testBit_insertBits (by omega) hhalf, testBit_advance hx,
    Nat.testBit_shiftRight, add_comm]

theorem dehash_eq (h : Valid p) (x : Nat) : p.dehash x = retreat p.msbShift x := by
  have hlt := h.lt
  have hmsb := h.msb
  have hbits : bits x (p.msbShift - 1) (p.msbShift - 1) ^^^ bits x p.msbShift p.msbShift =
      (x.testBit (p.msbShift - 1) ^^ x.testBit p.msbShift).toNat := by
    rw [bits_one (by omega), bits_one (by omega)]
    cases x.testBit (p.msbShift - 1) <;> cases x.testBit p.msbShift <;> rfl
  have hbit : ∀ i, (p.dehash x).testBit i =
      if i = 0 then x.testBit (p.msbShift - 1) ^^ x.testBit p.msbShift
      else decide (i ≤ p.msbShift) && x.testBit (i - 1) := by
    intro i
    rw [SkewedAssociative.dehash, hbits, testBit_insertBits (by omega) (Nat.mod_lt _ (by decide))]
    split
    · rfl
    · rw [Nat.testBit_mod_two_pow, Nat.testBit_shiftLeft, testBit_mbits (by omega)]
      by_cases hi : i ≤ p.msbShift
      · simp [hi, show i < 64 by omega, show 1 ≤ i by omega, show i - 1 ≤ p.msbShift - 1 by omega]
      · simp [hi, show ¬ i - 1 ≤ p.msbShift - 1 by omega]
  have hword : Word p.msbShift (p.dehash x) := by
    refine Nat.lt_pow_two_of_testBit _ fun i hi => ?_
    rw [hbit, if_neg (by omega), decide_eq_false (by omega), Bool.false_and]
  refine hword.ext .retreat fun i hi => ?_
  rw [hbit, testBit_retreat hi, decide_eq_true hi, Bool.true_and]

theorem iterate_hash_eq (h : Valid p) (hx : Word p.msbShift x) (k : Nat) :
    p.hash^[k] x = (advance p.msbShift)^[k] x := by
  induction k with
  | zero => rfl
  | succ k ih =>
    rw [Function.iterate_succ_apply', Function.iterate_succ_apply', ih, hash_eq h (hx.iterate k)]

/-! ## Skewing -/

/-- The hash of a way below 8, on set index `x` with upper bits `u`. -/
def mix (p : SkewedAssociative) (way x u : Nat) : Nat :=
  match way with
  | 0 => p.hash x ^^^ p.hash u ^^^ u
  | 1 => p.hash x ^^^ p.hash u ^^^ x
  | 2 => p.hash x ^^^ p.dehash u ^^^ u
  | 3 => p.hash x ^^^ p.dehash u ^^^ x
  | 4 => p.dehash x ^^^ p.hash u ^^^ u
  | 5 => p.dehash x ^^^ p.hash u ^^^ x
  | 6 => p.dehash x ^^^ p.dehash u ^^^ u
  | _ => p.dehash x ^^^ p.dehash u ^^^ x

def unmix (p : SkewedAssociative) (way y u : Nat) : Nat :=
  match way with
  | 0 => p.dehash (y ^^^ p.hash u ^^^ u)
  | 1 => p.hash^[p.msbShift] (y ^^^ p.hash u)
  | 2 => p.dehash (y ^^^ p.dehash u ^^^ u)
  | 3 => p.hash^[p.msbShift] (y ^^^ p.dehash u)
  | 4 => p.hash (y ^^^ p.hash u ^^^ u)
  | 5 => p.hash^[p.msbShift + 1] (y ^^^ p.hash u)
  | 6 => p.hash (y ^^^ p.dehash u ^^^ u)
  | _ => p.hash^[p.msbShift + 1] (y ^^^ p.dehash u)

/-- Two maps of the words that undo each other. -/
structure Undo (m : Nat) (f g : Nat → Nat) : Prop where
  word : ∀ x, Word m x → Word m (f x)
  word' : ∀ x, Word m x → Word m (g x)
  left : ∀ x, Word m x → g (f x) = x
  right : ∀ x, Word m x → f (g x) = x

variable {f g f' g' : Nat → Nat}

theorem Undo.xor {c : Nat} (h : Undo m f g) (hc : Word m c)
    (hf : ∀ x, Word m x → f' x = f x ^^^ c) (hg : ∀ x, Word m x → g' x = g (x ^^^ c)) :
    Undo m f' g' := by
  have hcancel : ∀ z, z ^^^ c ^^^ c = z := fun z => by rw [Nat.xor_assoc, Nat.xor_self, Nat.xor_zero]
  refine ⟨fun x hx => ?_, fun x hx => ?_, fun x hx => ?_, fun x hx => ?_⟩
  · rw [hf x hx]
    exact (h.word x hx).xor hc
  · rw [hg x hx]
    exact h.word' _ (hx.xor hc)
  · rw [hf x hx, hg _ ((h.word x hx).xor hc), hcancel, h.left x hx]
  · rw [hg x hx, hf _ (h.word' _ (hx.xor hc)), h.right _ (hx.xor hc), hcancel]

theorem Undo.congr (h : Undo m f g) (hf : ∀ x, Word m x → f' x = f x)
    (hg : ∀ x, Word m x → g' x = g x) : Undo m f' g' := by
  refine h.xor (Nat.two_pow_pos _) (fun x hx => ?_) fun x hx => ?_
  · rw [hf x hx, Nat.xor_zero]
  · rw [hg x hx, Nat.xor_zero]

theorem Undo.trans (h : Undo m f g) (h' : Undo m f' g') :
    Undo m (fun x => f' (f x)) (fun x => g (g' x)) where
  word x hx := h'.word _ (h.word x hx)
  word' x hx := h.word' _ (h'.word' x hx)
  left x hx := by rw [h'.left _ (h.word x hx), h.left x hx]
  right x hx := by rw [h.right _ (h'.word' x hx), h'.right x hx]

section
variable (h : Valid p) (addr way : Nat)
include h

theorem undo_hash : Undo p.msbShift p.hash p.dehash where
  word x hx := by
    rw [hash_eq h hx]
    exact hx.advance
  word' x hx := by
    rw [dehash_eq h]
    exact .retreat
  left x hx := by rw [hash_eq h hx, dehash_eq h, retreat_advance h.msb hx]
  right x hx := by rw [dehash_eq h, hash_eq h .retreat, advance_retreat h.msb hx]

theorem undo_dehash : Undo p.msbShift p.dehash p.hash :=
  ⟨(undo_hash h).word', (undo_hash h).word, (undo_hash h).right, (undo_hash h).left⟩

theorem undo_iterate (k : Nat) : Undo p.msbShift p.hash^[k] p.dehash^[k] := by
  induction k with
  | zero => exact ⟨fun _ hx => hx, fun _ hx => hx, fun _ _ => rfl, fun _ _ => rfl⟩
  | succ k ih =>
    rw [Function.iterate_succ' p.hash]
    exact ih.trans (undo_hash h)

theorem undo_hash_xor :
    Undo p.msbShift (fun x => p.hash x ^^^ x) (p.hash^[p.msbShift]) where
  word x hx := ((undo_hash h).word x hx).xor hx
  word' x hx := (undo_iterate h _).word x hx
  left x hx := by
    rw [hash_eq h hx, iterate_hash_eq h (hx.advance.xor hx), (solve_advance hx).1]
  right x hx := by
    rw [iterate_hash_eq h hx, hash_eq h (hx.iterate _), (solve_advance hx).2]

theorem undo_dehash_xor :
    Undo p.msbShift (fun x => p.dehash x ^^^ x) (p.hash^[p.msbShift + 1]) where
  word x hx := ((undo_dehash h).word x hx).xor hx
  word' x hx := (undo_iterate h _).word x hx
  left x hx := by
    rw [dehash_eq h, iterate_hash_eq h (Word.retreat.xor hx), (solve_retreat h.msb hx).1]
  right x hx := by
    rw [iterate_hash_eq h hx, dehash_eq h, (solve_retreat h.msb hx).2]

theorem undo_mix (way : Nat) (hu : Word p.msbShift u) :
    Undo p.msbShift (fun x => mix p way x u) (fun y => unmix p way y u) := by
  have hhash := (undo_hash h).word u hu
  have hdehash := (undo_dehash h).word u hu
  have heven {f g v} (hf : Undo p.msbShift f g) (hv : Word p.msbShift v) :
      Undo p.msbShift (fun x => f x ^^^ v ^^^ u) fun y => g (y ^^^ v ^^^ u) :=
    hf.xor (hv.xor hu) (fun _ _ => Nat.xor_assoc ..) fun _ _ => by rw [Nat.xor_assoc]
  have hodd {f : Nat → Nat} {g v} (hf : Undo p.msbShift (fun x => f x ^^^ x) g) (hv : Word p.msbShift v) :
      Undo p.msbShift (fun x => f x ^^^ v ^^^ x) fun y => g (y ^^^ v) :=
    hf.xor hv (fun _ _ => Nat.xor_right_comm ..) fun _ _ => rfl
  unfold mix unmix
  split
  · exact heven (undo_hash h) hhash
  · exact hodd (undo_hash_xor h) hhash
  · exact heven (undo_hash h) hdehash
  · exact hodd (undo_hash_xor h) hdehash
  · exact heven (undo_dehash h) hhash
  · exact hodd (undo_dehash_xor h) hhash
  · exact heven (undo_dehash h) hdehash
  · exact hodd (undo_dehash_xor h) hdehash

theorem setBits_eq (addr : Nat) : bits addr p.msbShift 0 = addr % 2 ^ (p.msbShift + 1) := by
  have hlt := h.lt
  rw [bits_eq (Nat.zero_le _) (by omega), pow_zero, Nat.div_one, Nat.sub_zero]

theorem upperBits_eq (addr : Nat) :
    bits addr (2 * (p.msbShift + 1) - 1) (p.msbShift + 1) =
      addr / 2 ^ (p.msbShift + 1) % 2 ^ (p.msbShift + 1) := by
  have hlt := h.lt
  rw [bits_eq (by omega) (by omega)]
  congr 2
  omega

theorem skew_eq :
    p.skew addr way = p.hash^[way / 8] (mix p (way % 8) (addr % 2 ^ (p.msbShift + 1))
      (addr / 2 ^ (p.msbShift + 1) % 2 ^ (p.msbShift + 1))) := by
  rw [skew, setBits_eq h, upperBits_eq h]
  rfl

theorem deskew_eq :
    p.deskew addr way = unmix p (way % 8) (p.dehash^[way / 8] (addr % 2 ^ (p.msbShift + 1)))
      (addr / 2 ^ (p.msbShift + 1) % 2 ^ (p.msbShift + 1)) := by
  have hpile : ∀ x, (if way ≥ 8 then p.dehash^[way / 8] x else x) = p.dehash^[way / 8] x := by
    intro x
    split
    · rfl
    · rw [Nat.div_eq_of_lt (by omega)]
      rfl
  rw [deskew, setBits_eq h, upperBits_eq h, hpile]
  rfl

end

theorem join_eq {s : Nat} (upper : Nat) (hs : Word m s) :
    (upper <<< (m + 1) ||| s) % 2 ^ (m + 1) = s ∧ (upper <<< (m + 1) ||| s) / 2 ^
    (m + 1) = upper := by
  have hpos : 0 < 2 ^ (m + 1) := Nat.two_pow_pos _
  have hsum : upper <<< (m + 1) ||| s = s + 2 ^ (m + 1) * upper := by
    rw [← Nat.shiftLeft_add_eq_or_of_lt hs, Nat.shiftLeft_eq, mul_comm, add_comm]
  rw [hsum, Nat.add_mul_mod_self_left, Nat.mod_eq_of_lt hs, Nat.add_mul_div_left _ _ hpos,
    Nat.div_eq_of_lt hs, zero_add]
  exact ⟨rfl, rfl⟩

/-- **For every way, `deskew` undoes `skew`.** -/
theorem undo_skew (h : Valid p) (way upper : Nat) :
    Undo p.msbShift (fun s => p.skew (upper <<< (p.msbShift + 1) ||| s) way)
      (fun s => p.deskew (upper <<< (p.msbShift + 1) ||| s) way) := by
  have hu : Word p.msbShift (upper % 2 ^ (p.msbShift + 1)) := Nat.mod_lt _ (Nat.two_pow_pos _)
  refine ((undo_mix h (way % 8) hu).trans (undo_iterate h (way / 8))).congr (fun s hs => ?_)
    fun s hs => ?_
  · rw [skew_eq h, (join_eq upper hs).1, (join_eq upper hs).2]
  · rw [deskew_eq h, (join_eq upper hs).1, (join_eq upper hs).2]

end Hashes

/-! ## Addresses -/

/-- Sets and addresses can be recovered. -/
structure Recovers (p : SkewedAssociative) : Prop where
  address : ∀ a way, a < 2 ^ 64 → ∀ entry : ReplaceableEntry, entry.way = way →
    entry.set = p.extractSet a way →
      p.regenerateAddr (p.extractTag a) entry = a / 2 ^ p.setShift * 2 ^ p.setShift
  bijection : ∀ way upper, Set.BijOn (fun s => p.skew (upper <<< (p.msbShift + 1) ||| s) way)
    {s | s < p.numSets} {s | s < p.numSets}
  inverse : ∀ way upper, Set.InvOn (fun s => p.deskew (upper <<< (p.msbShift + 1) ||| s) way)
    (fun s => p.skew (upper <<< (p.msbShift + 1) ||| s) way) {s | s < p.numSets} {s | s < p.numSets}

section Addresses

variable {p : SkewedAssociative}

theorem new_valid {size entrySize assoc : Nat} (h : new size entrySize assoc = .ok p) :
    Valid p := by
  unfold SkewedAssociative.new at h
  split at h
  · cases h
  obtain ⟨setShift, -, h⟩ := bind_eq_ok.1 h
  obtain ⟨logSets, hlog, h⟩ := bind_eq_ok.1 h
  generalize size / (entrySize * assoc % 2 ^ 32) % 2 ^ 32 = numSets at h hlog
  have hlogSets : logSets = numSets.log2 := by
    unfold floorLog2 at hlog
    split at hlog
    · exact (Except.ok.inj hlog).symm
    · cases hlog
  split at h
  · cases h
  rename_i hpow
  split at h
  · cases h
  rename_i hbits
  split at h
  · cases h
  have heq : numSets = 2 ^ logSets := by
    rw [hlogSets]
    exact eq_two_pow_of_isPowerOf2 (by simpa using hpow)
  have hlarge : 2 ≤ logSets := by
    by_contra hsmall
    have hle : 2 ^ logSets ≤ 2 ^ 1 := Nat.pow_le_pow_right (by decide) (by omega)
    omega
  have hsucc : logSets - 1 + 1 = logSets := by omega
  have hmsb : 0 < logSets - 1 := by omega
  rw [← Except.ok.inj h]
  refine ⟨?_, ?_, ?_, ?_, hmsb⟩
  · rw [hsucc]
    exact heq
  · rw [hsucc, heq]
  · rw [hsucc]
  · rw [hsucc]
    exact Nat.le_of_not_lt hbits

theorem Valid.address (h : Valid p) {a way : Nat} (ha : a < 2 ^ 64) {entry : ReplaceableEntry}
    (hway : entry.way = way) (hset : entry.set = p.extractSet a way) :
    p.regenerateAddr (p.extractTag a) entry = a / 2 ^ p.setShift * 2 ^ p.setShift := by
  subst hway
  generalize hblock : a >>> p.setShift = block at hset
  generalize hindex : block % 2 ^ (p.msbShift + 1) = index
  generalize htag : p.extractTag a = tag
  have hword : Word p.msbShift index := hindex ▸ Nat.mod_lt _ (Nat.two_pow_pos _)
  have hsplit : tag <<< (p.msbShift + 1) ||| index = block := by
    have htag' : tag = block / 2 ^ (p.msbShift + 1) := by
      rw [← htag, ← hblock, extractTag, h.tagShift, Nat.shiftRight_add, Nat.shiftRight_eq_div_pow _ (_ + 1)]
    rw [← Nat.shiftLeft_add_eq_or_of_lt hword, Nat.shiftLeft_eq, htag', ← hindex, mul_comm]
    exact Nat.div_add_mod _ _
  have hlow : ∀ x, Word p.msbShift x → x &&& p.setMask = x := by
    intro x hx
    rw [h.setMask, Nat.and_two_pow_sub_one_eq_mod, Nat.mod_eq_of_lt hx]
  have hskew := (undo_skew h entry.way tag).word index hword
  have hback := (undo_skew h entry.way tag).left index hword
  have hset' : entry.set = p.skew (tag <<< (p.msbShift + 1) ||| index) entry.way := by
    rw [hset, extractSet, hblock, hsplit]
    exact hlow _ (hsplit ▸ hskew)
  -- no bit is shifted out at the top
  have hwhole : block <<< p.setShift ≤ a := by
    rw [← hblock, Nat.shiftRight_eq_div_pow, Nat.shiftLeft_eq]
    exact Nat.div_mul_le_self a _
  have hparts : tag <<< p.tagShift ||| index <<< p.setShift = block <<< p.setShift := by
    rw [← hsplit, Nat.shiftLeft_or_distrib, ← Nat.shiftLeft_add, h.tagShift, add_comm p.setShift]
  have htop : tag <<< p.tagShift < 2 ^ 64 :=
    lt_of_le_of_lt (le_trans (Nat.left_le_or.trans hparts.le) hwhole) ha
  have hbottom : index <<< p.setShift < 2 ^ 64 :=
    lt_of_le_of_lt (le_trans (Nat.right_le_or.trans hparts.le) hwhole) ha
  have hupper : tag <<< (p.msbShift + 1) < 2 ^ 64 := by
    have hle : tag <<< (p.msbShift + 1) ≤ tag <<< p.tagShift := by
      rw [Nat.shiftLeft_eq, Nat.shiftLeft_eq, h.tagShift]
      exact Nat.mul_le_mul_left _ (Nat.pow_le_pow_right (by decide) (Nat.le_add_left _ _))
    exact lt_of_le_of_lt hle htop
  rw [regenerateAddr, Nat.mod_eq_of_lt hupper, hset', hback, hlow _ hword, Nat.mod_eq_of_lt htop,
    Nat.mod_eq_of_lt hbottom, hparts, ← hblock, Nat.shiftRight_eq_div_pow, Nat.shiftLeft_eq]

/-- **The address of a block is recovered from its tag, set and way.** -/
theorem addresses_recovered {size entrySize assoc : Nat} (h : new size entrySize assoc = .ok p) :
    Recovers p := by
  have hv := new_valid h
  have hsets : ∀ s, s < p.numSets ↔ Word p.msbShift s := by
    intro s
    rw [hv.numSets, Word]
  have hinv : ∀ way upper, Set.InvOn (fun s => p.deskew (upper <<< (p.msbShift + 1) ||| s) way)
      (fun s => p.skew (upper <<< (p.msbShift + 1) ||| s) way)
      {s | s < p.numSets} {s | s < p.numSets} := by
    intro way upper
    exact ⟨fun s hs => (undo_skew hv way upper).left s ((hsets s).1 hs),
      fun s hs => (undo_skew hv way upper).right s ((hsets s).1 hs)⟩
  refine ⟨fun a way ha entry => hv.address ha, fun way upper => (hinv way upper).bijOn ?_ ?_, hinv⟩
  · exact fun s hs => (hsets _).2 ((undo_skew hv way upper).word s ((hsets s).1 hs))
  · exact fun s hs => (hsets _).2 ((undo_skew hv way upper).word' s ((hsets s).1 hs))

end Addresses

/-- 8 sets of 64-byte blocks, and a way above 8. -/
theorem addresses_recovered_eight : ∃ p, new 8192 64 16 = .ok p ∧ Recovers p ∧
    p.extractSet 0xdeadbeef 13 = 3 ∧
    p.regenerateAddr (p.extractTag 0xdeadbeef) ⟨3, 13⟩ = 0xdeadbec0 := by
  have h : new 8192 64 16 = .ok
      { assoc := 16, numSets := 8, setShift := 6, setMask := 7, tagShift := 9, msbShift := 2 } := rfl
  exact ⟨_, h, addresses_recovered h, by decide, by decide⟩

end Gem5Cxl.L3.SkewedSets
