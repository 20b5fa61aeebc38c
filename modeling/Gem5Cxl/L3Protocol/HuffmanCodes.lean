import Mathlib.Data.List.MinMax
import Mathlib.Tactic.Ring
import Gem5Cxl.Core.Tables
import Gem5Cxl.L2Machine.Huffman

/-!
# Which Huffman codes can be decoded

Decoding looks a code up by its bits as a number, so codes that differ in leading
zeros only are one code to it.

* `Apart`: of the right subtrees that hang off the leftmost path of the tree, no
  two have a leaf in the same place (as far as their codes are kept).
* `decode_encode_iff`: decoding inverts encoding if and only if the tree is
  `Apart`, for all samples, code lengths and ways to break ties.

Trees that are not `Apart` are common: three values of which the rarest two
together are not more frequent than the third are enough (`decode_wrong`).
-/
namespace Gem5Cxl.L3.HuffmanCodes

open Core L1 L2.Encoder L2.Encoder.Huffman
open List hiding merge

/-- The samples: distinct values with positive frequencies that do not overflow. -/
structure Sampled (samples : List (Nat × Nat)) : Prop where
  nonempty : samples ≠ []
  distinct : (samples.map Prod.fst).Nodup
  positive : ∀ s ∈ samples, 0 < s.2
  total : (samples.map Prod.snd).sum < 2 ^ 64

def sampleAll (maxCodeLength : Nat) (samples : List (Nat × Nat)) : Huffman :=
  samples.foldl (fun h s => h.sample s.1 s.2) { maxCodeLength }

/-! ## What is asked, and the condition -/

/-- Decoding inverts encoding. -/
def Inverts (h : Huffman) : Prop :=
  ∀ v, (h.encode v).length ≤ 64 → h.decode (h.encode v).code = .ok v

/-- The right subtrees of the nodes on the leftmost path, from the root on. -/
def spine : Node → List Node
  | .leaf _ _ => []
  | .node left right => right :: spine left

/-- The leaves of a tree in the order of `generateCodes`, with the way to each: `false` for left,
`true` for right. -/
def leaves : Node → List (List Bool × Nat)
  | .leaf value _ => [([], value)]
  | .node left right =>
    (leaves right).map (fun l => (true :: l.1, l.2)) ++ (leaves left).map fun l => (false :: l.1, l.2)

def places (n : Node) : List (List Bool) := (leaves n).map Prod.fst

/-- No place is that of a leaf in both the `a`-th and the `b`-th of the right subtrees, if the
deeper of the two leaves is not too deep to be kept. -/
def Apart (maxCodeLength : Nat) (root : Node) : Prop :=
  ∀ a b r s y, a < b → (spine root)[a]? = some r → (spine root)[b]? = some s →
    y ∈ places r → y ∈ places s → maxCodeLength < b + 1 + y.length

/-! ## Codes as numbers -/

/-- The number after the bits `p`, from `c` on. -/
def val (c : Nat) : List Bool → Nat
  | [] => c
  | b :: p => val (2 * c + b.toNat) p

theorem val_bounds (c : Nat) (p : List Bool) :
    c * 2 ^ p.length ≤ val c p ∧ val c p < (c + 1) * 2 ^ p.length := by
  induction p generalizing c with
  | nil => simp [val]
  | cons b p ih =>
    obtain ⟨hlo, hhi⟩ := ih (2 * c + b.toNat)
    have hb : b.toNat ≤ 1 := b.toNat_le
    constructor
    · calc c * (2 ^ p.length * 2) = 2 * c * 2 ^ p.length := by ring
        _ ≤ (2 * c + b.toNat) * 2 ^ p.length := Nat.mul_le_mul_right _ (Nat.le_add_right _ _)
        _ ≤ val (2 * c + b.toNat) p := hlo
    · calc val (2 * c + b.toNat) p < (2 * c + b.toNat + 1) * 2 ^ p.length := hhi
        _ ≤ (2 * (c + 1)) * 2 ^ p.length := Nat.mul_le_mul_right _ (by omega)
        _ = (c + 1) * (2 ^ p.length * 2) := by ring

theorem val_inj {c c' : Nat} {p q : List Bool} (hlen : p.length = q.length)
    (h : val c p = val c' q) : c = c' ∧ p = q := by
  induction p generalizing c c' q with
  | nil =>
    obtain rfl : q = [] := length_eq_zero_iff.1 hlen.symm
    exact ⟨h, rfl⟩
  | cons b p ih =>
    cases q with
    | nil => simp at hlen
    | cons d q =>
      have hnext : val (2 * c + b.toNat) p = val (2 * c' + d.toNat) q := h
      obtain ⟨hc, hpq⟩ := ih (by simpa using hlen) hnext
      cases b with
      | false =>
        cases d with
        | false => exact ⟨by simpa using hc, by rw [hpq]⟩
        | true => simp at hc; omega
      | true =>
        cases d with
        | false => simp at hc; omega
        | true => exact ⟨by simpa using hc, by rw [hpq]⟩

theorem val_one_inj {p q : List Bool} (h : val 1 p = val 1 q) : p = q := by
  have hp := val_bounds 1 p
  have hq := val_bounds 1 q
  have hlen : p.length = q.length := by
    rcases lt_trichotomy p.length q.length with hlt | heq | hlt
    · have hpow : 2 ^ (p.length + 1) ≤ 2 ^ q.length := Nat.pow_le_pow_right (by decide) hlt
      omega
    · exact heq
    · have hpow : 2 ^ (q.length + 1) ≤ 2 ^ p.length := Nat.pow_le_pow_right (by decide) hlt
      omega
  exact (val_inj hlen h).2

theorem val_zeros (k : Nat) (p : List Bool) : val 0 (List.replicate k false ++ p) = val 0 p := by
  induction k with
  | zero => rfl
  | succ k ih => exact ih

theorem val_one_pos (p : List Bool) : 0 < val 1 p := by
  have h := (val_bounds 1 p).1
  have hpos : 0 < 2 ^ p.length := Nat.two_pow_pos _
  omega

variable (maxCodeLength : Nat) (left right : Node)

/-! ## Places on and off the leftmost path -/

section Places

variable {root : Node} {p q : List Bool}

theorem places_node : places (.node left right) = (places right).map
    (true :: ·) ++ (places left).map (false :: ·) := by
  simp only [places, leaves, map_append, map_map]
  rfl

/-- A leaf is at the end of the leftmost path, or in a right subtree that hangs off it. -/
theorem place_cases (h : p ∈ places root) :
    p = List.replicate (spine root).length false ∨
      ∃ a r y, (spine root)[a]? = some r ∧ y ∈ places r ∧
        p = List.replicate a false ++ true :: y := by
  induction root generalizing p with
  | leaf v f => exact .inl (mem_singleton.1 h)
  | node left right ihl ihr =>
    rw [places_node, mem_append, mem_map, mem_map] at h
    rcases h with ⟨y, hy, rfl⟩ | ⟨y, hy, rfl⟩
    · exact .inr ⟨0, right, y, rfl, hy, rfl⟩
    · rcases ihl hy with rfl | ⟨a, r, z, hr, hz, rfl⟩
      · exact .inl rfl
      · exact .inr ⟨a + 1, r, z, hr, hz, rfl⟩

theorem place_of_spine {a : Nat} {r : Node} {y : List Bool} (hr : (spine root)[a]? = some r)
    (hy : y ∈ places r) : List.replicate a false ++ true :: y ∈ places root := by
  induction root generalizing a with
  | leaf v f => simp [spine] at hr
  | node left right ihl ihr =>
    rw [places_node, mem_append, mem_map, mem_map]
    cases a with
    | zero =>
      cases hr
      exact .inl ⟨y, hy, rfl⟩
    | succ a => exact .inr ⟨_, ihl hr, rfl⟩

/-- The codes of the leaves that are kept are different numbers if and only if the tree is
`Apart`. -/
theorem val_distinct_iff :
    (∀ p ∈ places root, ∀ q ∈ places root, p.length ≤ maxCodeLength → q.length ≤ maxCodeLength →
      val 0 p = val 0 q → p = q) ↔ Apart maxCodeLength root := by
  have hval : ∀ a y, val 0 (replicate a false ++ true :: y) = val 1 y :=
    fun a y => val_zeros a (true :: y)
  have hlength : ∀ a y, (replicate a false ++ true :: y).length = a + 1 + y.length := by
    simp only [length_append, length_replicate, length_cons]
    omega
  constructor
  · intro h a b r s y hab hr hs hyr hys
    by_contra hle
    have heq := h _ (place_of_spine hr hyr) _ (place_of_spine hs hys)
      (by rw [hlength]; omega) (by rw [hlength]; omega) (by rw [hval, hval])
    have hlen := congrArg length heq
    rw [hlength, hlength] at hlen
    omega
  · intro h p hp q hq hpl hql hpq
    have hzero : val 0 (replicate (spine root).length false) = 0 := by
      have := val_zeros (spine root).length []
      rwa [append_nil] at this
    rcases place_cases hp with rfl | ⟨a, r, y, hr, hy, rfl⟩
    · rcases place_cases hq with rfl | ⟨b, s, z, -, -, rfl⟩
      · rfl
      · rw [hval, hzero] at hpq
        exact absurd hpq (val_one_pos z).ne
    · rcases place_cases hq with rfl | ⟨b, s, z, hs, hz, rfl⟩
      · rw [hval, hzero] at hpq
        exact absurd hpq (val_one_pos y).ne'
      · rw [hval, hval] at hpq
        obtain rfl := val_one_inj hpq
        rw [hlength] at hpl hql
        rcases lt_trichotomy a b with hab | rfl | hab
        · have := h a b r s y hab hr hs hy hz
          omega
        · rfl
        · have := h b a s r y hab hs hr hz hy
          omega

end Places

/-! ## The maps -/

/-- The values and codes that `generateCodes` keeps of a tree, from a code on. -/
def kept (maxCodeLength : Nat) (n : Node) (c : Code) : List (Nat × Code) :=
  ((leaves n).filter fun l => c.length + l.1.length ≤ maxCodeLength).map fun l =>
    (l.2, ⟨val c.code l.1, c.length + l.1.length⟩)

section Maps

variable {maxCodeLength : Nat} {c : Code} {h : Huffman} {n : Node}

theorem kept_eq_nil (h : maxCodeLength < c.length) : kept maxCodeLength n c = [] := by
  have hnone : ((leaves n).filter fun l => c.length + l.1.length ≤ maxCodeLength) = [] := by
    refine filter_eq_nil_iff.2 fun l _ => ?_
    simp only [decide_eq_true_eq]
    omega
  rw [kept, hnone, map_nil]

theorem kept_node (c : Code) :
    kept maxCodeLength (.node left right) c =
      kept maxCodeLength right ⟨2 * c.code + 1, c.length + 1⟩ ++
        kept maxCodeLength left ⟨2 * c.code, c.length + 1⟩ := by
  have hpart : ∀ b n,
      ((((leaves n).map fun l => (b :: l.1, l.2)).filter fun l =>
        c.length + l.1.length ≤ maxCodeLength).map fun l =>
          (l.2, ⟨val c.code l.1, c.length + l.1.length⟩)) =
        kept maxCodeLength n ⟨2 * c.code + b.toNat, c.length + 1⟩ := by
    intro b n
    have hlen : ∀ l : List Bool × Nat, c.length + (b :: l.1).length = c.length + 1 + l.1.length := by
      intro l
      rw [length_cons]
      omega
    rw [kept, filter_map, map_map]
    simp only [Function.comp_def, hlen, val]
  rw [kept, leaves, filter_append, map_append, hpart true, hpart false]
  rfl

theorem kept_congr {len x y : Nat} (h : len ≤ maxCodeLength → x = y) :
    kept maxCodeLength n ⟨x, len⟩ = kept maxCodeLength n ⟨y, len⟩ := by
  by_cases hlen : len ≤ maxCodeLength
  · rw [h hlen]
  · have hlong : maxCodeLength < len := Nat.lt_of_not_le hlen
    rw [kept_eq_nil hlong, kept_eq_nil hlong]

theorem generateCodes_eq (hmax : h.maxCodeLength ≤ 64)
    (hc : c.length ≤ h.maxCodeLength → c.code < 2 ^ c.length) :
    h.generateCodes n c = { h with
      valueToCode := fill h.valueToCode (kept h.maxCodeLength n c)
      codeToValue := fill h.codeToValue
        ((kept h.maxCodeLength n c).map fun e => (e.2.code, e.1)) } := by
  induction n generalizing h c with
  | leaf v f =>
    unfold generateCodes
    split
    · rename_i hlong
      rw [kept_eq_nil hlong]
      rfl
    · rename_i hle
      have hkept : kept h.maxCodeLength (.leaf v f) c = [(v, c)] := by
        simp [kept, leaves, val, Nat.le_of_not_lt hle]
      rw [hkept]
      rfl
  | node left right ihl ihr =>
    unfold generateCodes
    split
    · rename_i hlong
      rw [kept_eq_nil hlong]
      rfl
    · -- a code of at most 64 bits does not wrap
      have hbits : c.length + 1 ≤ h.maxCodeLength → 2 * c.code + 1 < 2 ^ 64 := by
        intro hshort
        have hpow : 2 ^ (c.length + 1) ≤ 2 ^ 64 := Nat.pow_le_pow_right (by decide) (by omega)
        omega
      have hright : c.length + 1 ≤ h.maxCodeLength →
          ((c.code <<< 1) % 2 ^ 64 + 1) % 2 ^ 64 = 2 * c.code + 1 := by
        omega
      have hleft : c.length + 1 ≤ h.maxCodeLength → (c.code <<< 1) % 2 ^ 64 = 2 * c.code := by
        omega
      have hsmall : 2 * c.code + 1 < 2 ^ (c.length + 1) := by
        omega
      rw [ihr hmax (fun hs => by rw [hright hs]; exact hsmall),
        kept_congr hright]
      refine (ihl (by exact hmax) fun hs => ?_).trans ?_
      · rw [hleft hs]
        exact Nat.lt_of_succ_lt hsmall
      · rw [kept_congr hleft, kept_node, map_append, fill_append, fill_append]

/-- Decoding inverts encoding if and only if the codes of different values are different
numbers. -/
theorem inverts_iff (hmax : maxCodeLength ≤ 64) (hd : ((leaves n).map Prod.snd).Nodup)
    (hv : h.valueToCode = fill (fun _ => none) (kept maxCodeLength n {})) (hc : h.codeToValue =
      fill (fun _ => none) ((kept maxCodeLength n {}).map fun e => (e.2.code, e.1))) :
    Inverts h ↔ ∀ e ∈ kept maxCodeLength n {}, ∀ e' ∈ kept maxCodeLength n {},
      e.2.code = e'.2.code → e.1 = e'.1 := by
  have hkeys : ((kept maxCodeLength n {}).map Prod.fst).Nodup := by
    rw [kept, map_map]
    exact hd.sublist (filter_sublist.map _)
  rw [← roundTrip_iff hkeys, ← hv, ← hc]
  constructor
  · intro hinv k b hb
    have hlen : b.length ≤ 64 := by
      rw [hv, fill_iff hkeys] at hb
      obtain ⟨l, hl, heq⟩ := mem_map.1 hb
      have hle := (mem_filter.1 hl).2
      rw [← (Prod.mk.inj heq).2]
      simp only [decide_eq_true_eq] at hle
      exact le_trans hle hmax
    have henc : h.encode k = b := by rw [encode, hb]
    have hdec := hinv k (by rw [henc]; exact hlen)
    rw [henc, decode] at hdec
    split at hdec
    · rename_i v hsome
      rw [hsome, Except.ok.inj hdec]
    · cases hdec
  · intro hround v hlen
    cases hcode : h.valueToCode v with
    | none => simp [encode, hcode] at hlen
    | some b => rw [encode, hcode, decode, hround v b hcode]

end Maps

/-! ## The tree -/

section Tree

variable {trees rest : List Node} {n root : Node} (tie : Nat → Nat)

def values (n : Node) : List Nat := (leaves n).map Prod.snd

theorem values_node : values (.node left right) = values right ++ values left := by
  simp only [values, leaves, map_append, map_map]
  rfl

theorem places_nodup (n : Node) : (places n).Nodup := by
  induction n with
  | leaf v f => exact nodup_singleton _
  | node left right ihl ihr =>
    rw [places_node]
    refine nodup_append.2 ⟨ihr.map fun _ _ => by simp, ihl.map fun _ _ => by simp, ?_⟩
    rintro p hp q hq rfl
    obtain ⟨y, -, hy⟩ := mem_map.1 hp
    obtain ⟨z, -, hz⟩ := mem_map.1 hq
    cases hy.trans hz.symm

theorem least_ne_nil (h : trees ≠ []) : least trees ≠ [] := by
  obtain ⟨n, hn⟩ := Option.ne_none_iff_exists'.1
    (mt (argmin_eq_none (f := Node.getFrequency)).1 h)
  refine ne_nil_of_mem (mem_filter.2 ⟨argmin_mem hn, ?_⟩)
  simpa using fun m hm => le_of_mem_argmin hm hn

theorem pop_ok (tie : Nat) (h : trees ≠ []) :
    ∃ n, n ∈ trees ∧ pop tie trees = .ok (n, trees.erase n) := by
  have hlt : tie % (least trees).length < (least trees).length :=
    Nat.mod_lt _ (length_pos_of_ne_nil (least_ne_nil h))
  refine ⟨(least trees)[tie % (least trees).length], ?_, ?_⟩
  · exact mem_of_mem_filter (getElem_mem hlt)
  · rw [pop, getElem?_eq_getElem hlt]

theorem merge_ok (k : Nat) {fuel : Nat} (hfuel : trees.length < fuel)
    (h : trees ≠ []) : ∃ k' root, merge tie k fuel trees = .ok (k', [root]) ∧
      (values root).Perm (trees.flatMap values) := by
  induction fuel generalizing k trees with
  | zero => omega
  | succ fuel ih =>
    unfold merge
    split
    · obtain ⟨left, hleft, hpop⟩ := pop_ok (tie k) h
      have hlen₁ : (trees.erase left).length + 1 = trees.length := by
        rw [length_erase_of_mem hleft]
        omega
      have hne : trees.erase left ≠ [] := ne_nil_of_length_pos (by omega)
      obtain ⟨right, hright, hpop'⟩ := pop_ok (tie (k + 1)) hne
      have hlen₂ : ((trees.erase left).erase right).length + 1 = (trees.erase left).length := by
        rw [length_erase_of_mem hright]
        omega
      have hfuel' : (.node left right :: (trees.erase left).erase right).length < fuel := by
        rw [length_cons]
        omega
      obtain ⟨k', root, hmerge, hperm⟩ := ih (k + 2) hfuel' (cons_ne_nil _ _)
      refine ⟨k', root, by simp only [hpop, hpop', ok_bind, hmerge], hperm.trans ?_⟩
      have hall : trees.Perm (left :: right :: (trees.erase left).erase right) :=
        (perm_cons_erase hleft).trans ((perm_cons_erase hright).cons left)
      refine .trans ?_ (hall.flatMap_right values).symm
      rw [flatMap_cons, flatMap_cons, flatMap_cons, values_node, ← append_assoc]
      exact perm_append_comm.append_right _
    · obtain ⟨root, rfl⟩ : ∃ root, trees = [root] := by
        rw [← length_eq_one_iff]
        have := length_pos_of_ne_nil h
        omega
      exact ⟨k, root, rfl, by simp⟩

theorem buildTree_ok (h : trees ≠ []) :
    ∃ root, buildTree tie trees = .ok (root, []) ∧ (values root).Perm (trees.flatMap values) := by
  obtain ⟨k, root, hmerge, hperm⟩ := merge_ok tie 0 (Nat.lt_succ_self trees.length) h
  refine ⟨root, ?_, hperm⟩
  obtain ⟨n, hn, hpop⟩ := pop_ok (tie k) (cons_ne_nil root [])
  obtain rfl := mem_singleton.1 hn
  simp only [buildTree, hmerge, ok_bind, hpop, erase_cons_head]

theorem sampleAll_eq {samples : List (Nat × Nat)} (h : ∀ s ∈ samples, 0 < s.2) :
    sampleAll maxCodeLength samples =
      { maxCodeLength, trees := (samples.map fun s => Node.leaf s.1 s.2).reverse } := by
  suffices hgen : ∀ trees, samples.foldl (fun h s => h.sample s.1 s.2) { maxCodeLength, trees } =
      ({ maxCodeLength, trees := (samples.map fun s => .leaf s.1 s.2).reverse ++ trees } : Huffman) by
    simpa [sampleAll] using hgen []
  induction samples with
  | nil => exact fun _ => rfl
  | cons s samples ih =>
    intro trees
    obtain ⟨hs, hrest⟩ := forall_mem_cons.1 h
    rw [foldl_cons, sample, if_pos hs.ne', ih hrest]
    simp

end Tree

theorem kept_distinct_iff {maxCodeLength : Nat} {root : Node} (hd : (values root).Nodup) :
    (∀ e ∈ kept maxCodeLength root {}, ∀ e' ∈ kept maxCodeLength root {},
      e.2.code = e'.2.code → e.1 = e'.1) ↔ Apart maxCodeLength root := by
  rw [← val_distinct_iff]
  constructor
  · intro h p hp q hq hpl hql hpq
    obtain ⟨l, hl, rfl⟩ := mem_map.1 hp
    obtain ⟨l', hl', rfl⟩ := mem_map.1 hq
    have hkept : ∀ l ∈ leaves root, l.1.length ≤ maxCodeLength →
        (l.2, ⟨val 0 l.1, 0 + l.1.length⟩) ∈ kept maxCodeLength root {} := by
      intro l hl hlen
      exact mem_map.2 ⟨l, mem_filter.2 ⟨hl, by simpa using hlen⟩, rfl⟩
    have hval := h _ (hkept l hl hpl) _ (hkept l' hl' hql) hpq
    rw [inj_on_of_nodup_map hd hl hl' hval]
  · intro h e he e' he' hcode
    obtain ⟨l, hl, rfl⟩ := mem_map.1 he
    obtain ⟨l', hl', rfl⟩ := mem_map.1 he'
    obtain ⟨hl, hlen⟩ := mem_filter.1 hl
    obtain ⟨hl', hlen'⟩ := mem_filter.1 hl'
    have hplace := h l.1 (mem_map_of_mem hl) l'.1 (mem_map_of_mem hl')
      (by simpa using hlen) (by simpa using hlen') hcode
    exact congrArg Prod.snd (inj_on_of_nodup_map (places_nodup root) hl hl' hplace)

/-- **Decoding inverts encoding exactly for the trees that are `Apart`.** -/
theorem decode_encode_iff {samples : List (Nat × Nat)} (hs : Sampled samples) {maxCodeLength : Nat}
    (hmax : maxCodeLength ≤ 64) (tie : Nat → Nat) :
    ∃ root h, buildTree tie (sampleAll maxCodeLength samples).trees = .ok (root, []) ∧
      (sampleAll maxCodeLength samples).generateCodeMaps tie = .ok h ∧
      (Inverts h ↔ Apart maxCodeLength root) := by
  rw [sampleAll_eq maxCodeLength hs.positive]
  have hne : (samples.map fun s => Node.leaf s.1 s.2).reverse ≠ [] := by simpa using hs.nonempty
  obtain ⟨root, hbuild, hperm⟩ := buildTree_ok tie hne
  have hd : (values root).Nodup := by
    have hvalues : ((samples.map fun s => .leaf s.1 s.2).flatMap values) =
        samples.map Prod.fst := by
      rw [flatMap_map]
      exact map_eq_flatMap.symm
    refine (hperm.trans ((reverse_perm _).flatMap_right values)).nodup_iff.2 ?_
    rw [hvalues]
    exact hs.distinct
  have hcodes := generateCodes_eq (h := { maxCodeLength }) hmax (n := root) (c := {})
    fun _ => one_pos
  refine ⟨root, generateCodes { maxCodeLength } root {}, hbuild, ?_, ?_⟩
  · simp only [generateCodeMaps, hbuild, ok_bind]
  rw [← kept_distinct_iff hd]
  refine inverts_iff hmax hd ?_ ?_
  · exact congrArg valueToCode hcodes
  · exact congrArg codeToValue hcodes

/-- Two rare values that are together more frequent than the third. -/
theorem decode_encode_iff_three :
    ∃ root h,
      buildTree (fun _ => 0) (sampleAll 64 [(10, 2), (20, 2), (30, 3)]).trees = .ok (root, []) ∧
      (sampleAll 64 [(10, 2), (20, 2), (30, 3)]).generateCodeMaps (fun _ => 0) = .ok h ∧
      Inverts h := by
  have hs : Sampled [(10, 2), (20, 2), (30, 3)] := ⟨by decide, by decide, by decide, by decide⟩
  obtain ⟨root, h, hroot, hmaps, hiff⟩ := decode_encode_iff hs le_rfl fun _ => 0
  refine ⟨root, h, hroot, hmaps, hiff.2 ?_⟩
  cases hroot
  -- one right subtree hangs off the leftmost path
  intro a b r s y hab hr hs
  cases b with
  | zero => omega
  | succ b => cases hs

/-- The most frequent of three values is decoded as another. -/
theorem decode_wrong :
    Sampled [(10, 1), (20, 2), (30, 4)] ∧
    ∃ h, (sampleAll 64 [(10, 1), (20, 2), (30, 4)]).generateCodeMaps (fun _ => 0) = .ok h ∧
      h.encode 30 = ⟨1, 1⟩ ∧ h.encode 20 = ⟨1, 2⟩ ∧ h.decode 1 = .ok 20 ∧ ¬ Inverts h := by
  refine ⟨⟨by decide, by decide, by decide, by decide⟩, _, rfl, rfl, rfl, rfl, fun h => ?_⟩
  cases h 30 (by decide)

end Gem5Cxl.L3.HuffmanCodes
