import Gem5Cxl.L2Machine.Dvsec

/-!
# Discovery of the DVSEC structures

Software finds the structures of a CXL device by a walk of the extended
capability list: it starts at 0x100 and follows bits 31:20 of each header to a
header in which they are 0 (`walk`). `Discovers` says that the walk finds the
configured structures, in order, and that their headers say what they are.

* `init_spec`: what `initCxlDvsecs` leaves, for every layout: headers with the
  lengths and ids of the tables, and a list that ends at 0x100.
* `discovers_iff`: discovery works exactly when one structure is configured and
  its revision survives: the PCIe DVSEC, or a structure of 16 bytes whose
  revision is 0 (`Lone`).
* `second_structure_hidden`: a PCIe DVSEC at 0x100 and an MLD DVSEC at 0x200.
-/
namespace Gem5Cxl.L3.DvsecWalk

open Core L1 L2 List

/-! ## What is asked -/

/-- The DVSEC id a structure has in `idlist`. -/
def ownId : DvsecKind → Nat
  | .pcieDvsecForCxlDev => 0x0
  | .nonCxlFunctionMap => 0x2
  | .cxlExtensionsForPorts => 0x3
  | .gpfForCxlPorts => 0x4
  | .gpfForCxlDev => 0x5
  | .flexBusPorts => 0x7
  | .registerLocator => 0x8
  | .mld => 0x9

/-- The length a structure has in `lenlist`. -/
def listLen : DvsecKind → Nat
  | .pcieDvsecForCxlDev => 0x3C
  | .nonCxlFunctionMap => 0x2C
  | .cxlExtensionsForPorts => 0x28
  | .gpfForCxlPorts => 0x10
  | .gpfForCxlDev => 0x10
  | .flexBusPorts => 0x20
  | .registerLocator => 0
  | .mld => 0x10

/-- The bytes a structure takes: its header at least. -/
def extent (k : DvsecKind) : Nat := max (listLen k) dvsecHeaderSize

def Configured (p : DvsecParams) (k : DvsecKind) : Prop := p.baseOffset k ≠ 0

/-- Two structures side by side. -/
def Apart (p : DvsecParams) (k k' : DvsecKind) : Prop :=
  p.baseOffset k + extent k ≤ p.baseOffset k' ∨ p.baseOffset k' + extent k' ≤ p.baseOffset k

/-- A legal choice of structures, offsets and revisions. -/
structure Layout (p : DvsecParams) : Prop where
  aligned : ∀ k, p.baseOffset k % 4 = 0
  above : ∀ k, Configured p k → 0x100 ≤ p.baseOffset k
  inside : ∀ k, Configured p k → p.baseOffset k + extent k ≤ 0x1000
  disjoint : ∀ k k', Configured p k → Configured p k' → k ≠ k' → Apart p k k'
  first : ∃ k, p.baseOffset k = 0x100
  fourBit : ∀ k, p.dvsecRev k < 16

def nextOffset (c : Bytes) (o : Nat) : Nat := readLE c o 4 / 2 ^ 20

/-- The headers from `o` on, if the list ends. -/
def walk (c : Bytes) : Nat → Nat → Option (List Nat)
  | 0, _ => none
  | fuel + 1, o =>
    if nextOffset c o = 0 then some [o]
    else (walk c fuel (nextOffset c o)).map (o :: ·)

/-- The header of the structure says what it is. -/
structure Decodes (p : DvsecParams) (c : Bytes) (k : DvsecKind) : Prop where
  capability : readLE c (p.baseOffset k + eCapaId) 2 = 0x23
  vendor : readLE c (p.baseOffset k + vendorId) 2 = 0x1E98
  id : readLE c (p.baseOffset k + dvsecId) 2 = ownId k
  length : readLE c (p.baseOffset k + revLeng) 2 / 16 = listLen k
  revision : readLE c (p.baseOffset k + revLeng) 2 % 16 = p.dvsecRev k

structure Discovers (p : DvsecParams) (c : Bytes) : Prop where
  visits : ∃ fuel l, walk c fuel 0x100 = some l ∧ l.Pairwise (· < ·) ∧
    ∀ o, o ∈ l ↔ ∃ k, Configured p k ∧ p.baseOffset k = o
  decodes : ∀ k, Configured p k → Decodes p c k

/-- One structure, at 0x100, and its revision and length survive in the header. -/
def Lone (p : DvsecParams) : Prop :=
  ∃ k, p.baseOffset k = 0x100 ∧ (∀ k', Configured p k' → k' = k) ∧
    (k = .pcieDvsecForCxlDev ∨ listLen k = 0x10 ∧ p.dvsecRev k = 0)

/-! ## Headers -/

/-- A header with its packed revision and length, whatever its link. -/
structure Header (c : Bytes) (o id packed : Nat) : Prop where
  capability : readLE c (o + eCapaId) 2 = 0x23
  vendor : readLE c (o + vendorId) 2 = 0x1E98
  id : readLE c (o + dvsecId) 2 = id
  packed : readLE c (o + revLeng) 2 = packed

variable {c c' : Bytes} {o o' id packed : Nat} {k' : DvsecKind}

theorem Header.congr (h : Header c o id packed)
    (hc : ∀ b, o ≤ b → b < o + dvsecHeaderSize → b ≠ o + 2 → b ≠ o + 3 → c' b = c b) :
    Header c' o id packed := by
  have hread : ∀ f, f = 0 ∨ 4 ≤ f ∧ f ≤ 8 → readLE c' (o + f) 2 = readLE c (o + f) 2 := by
    intro f hf
    refine readLE_congr fun j hj => hc _ ?_ ?_ ?_ ?_ <;> (try unfold dvsecHeaderSize) <;> omega
  exact {
    capability := (hread _ (.inl rfl)).trans h.capability
    vendor := (hread _ (.inr (by decide))).trans h.vendor
    id := (hread _ (.inr (by decide))).trans h.id
    packed := (hread _ (.inr (by decide))).trans h.packed }

theorem initCxlDVSECHeader_outside {len rev b : Nat} (h : b < o ∨ o + dvsecHeaderSize ≤ b) :
    initCxlDVSECHeader c o id len rev b = c b := by
  simp only [dvsecHeaderSize] at h
  simp only [initCxlDVSECHeader, eCapaId, vendorId, dvsecId, revLeng]
  rw [writeLE_outside (by omega), writeLE_outside (by omega), writeLE_outside (by omega),
    writeLE_outside (by omega)]

theorem initCxlDVSECHeader_header (hid : id < 2 ^ 16) (len rev : Nat) :
    Header (initCxlDVSECHeader c o id len rev) o id ((len <<< 4 ||| rev) % 2 ^ 16) := by
  simp only [initCxlDVSECHeader, eCapaId, vendorId, dvsecId, revLeng]
  refine ⟨?_, ?_, ?_, ?_⟩ <;> simp only [eCapaId, vendorId, dvsecId, revLeng]
  · rw [readLE_writeLE_of_disjoint (by omega), readLE_writeLE_of_disjoint (by omega),
      readLE_writeLE_of_disjoint (by omega), readLE_writeLE]
    rfl
  · rw [readLE_writeLE_of_disjoint (by omega), readLE_writeLE_of_disjoint (by omega),
      readLE_writeLE]
    rfl
  · rw [readLE_writeLE_of_disjoint (by omega), readLE_writeLE]
    exact Nat.mod_eq_of_lt hid
  · rw [readLE_writeLE]
    rfl

/-! ## The second loop -/

/-- The second loop of `initCxlDvsecs`. -/
def link (c : Bytes) (l : List Nat) : Bytes := l.foldl (fun c o => setNextECapaPtr c o o) c

theorem setNextECapaPtr_outside {next b : Nat} (h : b ≠ o + 2) (h' : b ≠ o + 3) :
    setNextECapaPtr c o next b = c b := by
  refine writeLE_outside ?_
  simp only [verNext]
  omega

variable {l : List Nat}

theorem link_header (h : Header c o id packed)
    (hl : ∀ x ∈ l, x = o ∨ x + dvsecHeaderSize ≤ o ∨ o + dvsecHeaderSize ≤ x) :
    Header (link c l) o id packed := by
  induction l generalizing c with
  | nil => exact h
  | cons x l ih =>
    refine ih (h.congr fun b hb hb' h2 h3 => ?_) fun y hy => hl y (mem_cons_of_mem _ hy)
    have hx := hl x mem_cons_self
    simp only [dvsecHeaderSize] at hb' hx
    apply setNextECapaPtr_outside <;> omega

/-- A header at a multiple of 16 is given no next header: 12 bits of shift leave
nothing of its offset in a field of 16 bits. -/
theorem setNextECapaPtr_self (h : o % 16 = 0) :
    readLE (setNextECapaPtr c o o) (o + verNext) 2 < 16 := by
  have hshift : o <<< 12 % 2 ^ 16 = 0 := by
    omega
  rw [setNextECapaPtr, readLE_writeLE, show 256 ^ 2 = 2 ^ 16 from rfl, Nat.or_mod_two_pow, hshift,
    Nat.or_zero]
  refine (Nat.mod_le _ _).trans_lt ?_
  exact lt_of_le_of_lt Nat.and_le_right (by decide)

theorem link_first (ho : o % 16 = 0)
    (hl : ∀ x ∈ l, x = o ∨ x + dvsecHeaderSize ≤ o ∨ o + dvsecHeaderSize ≤ x)
    (h : o ∈ l ∨ readLE c (o + verNext) 2 < 16) : readLE (link c l) (o + verNext) 2 < 16 := by
  induction l generalizing c with
  | nil => exact h.resolve_left not_mem_nil
  | cons x l ih =>
    refine ih (fun y hy => hl y (mem_cons_of_mem _ hy)) ?_
    by_cases hx : x = o
    · subst hx
      exact .inr (setNextECapaPtr_self ho)
    · have hfar := (hl x mem_cons_self).resolve_left hx
      rcases h with h | h
      · exact .inl ((mem_cons.1 h).resolve_left (Ne.symm hx))
      · right
        show readLE (setNextECapaPtr c x x) _ 2 < 16
        rwa [setNextECapaPtr, readLE_writeLE_of_disjoint]
        simp only [dvsecHeaderSize, verNext] at hfar ⊢
        omega

theorem readLE_four (c : Bytes) (o : Nat) :
    readLE c o 4 = readLE c o 2 + 2 ^ 16 * readLE c (o + 2) 2 := by
  simp only [readLE, add_assoc, Nat.reduceAdd]
  omega

/-! ## The first loop -/

theorem testRangeLoop_free {m : Nat → Bool} {i n : Nat} (hin : i + n ≤ 0x1000)
    (hfree : ∀ b, i ≤ b → b < i + n → m b = false) :
    ∃ m', testRangeLoop m i n = .ok (m', true) ∧
      ∀ b, m' b = true → m b = true ∨ i ≤ b ∧ b < i + n := by
  induction n generalizing m i with
  | zero => exact ⟨m, rfl, fun b hb => .inl hb⟩
  | succ n ih =>
    have hi : m i = false := hfree i (by omega) (by omega)
    obtain ⟨m', hrun, hmarks⟩ := ih (m := Function.update m i true) (i := i + 1) (by omega)
      fun b hb hb' => by
        rw [Function.update_of_ne (by omega)]
        exact hfree b (by omega) (by omega)
    refine ⟨m', ?_, fun b hb => ?_⟩
    · rw [testRangeLoop, if_neg (by omega), if_neg (by simp [hi])]
      exact hrun
    · by_cases hbi : b = i
      · exact .inr (by omega)
      · rcases hmarks b hb with hm | hm
        · rw [Function.update_of_ne hbi] at hm
          exact .inl hm
        · exact .inr (by omega)

theorem mem_insertOffset {k x : Nat} : x ∈ insertOffset k l ↔ x = k ∨ x ∈ l := by
  induction l with
  | nil => simp [insertOffset]
  | cons y l ih =>
    rw [insertOffset]
    split
    · simp
    · split
      · rename_i hk
        simp [hk]
      · simp [ih, or_left_comm]

/-- What the header of a structure holds for its revision. -/
def storedRev (p : DvsecParams) (k : DvsecKind) : Nat :=
  if k = .pcieDvsecForCxlDev then p.dvsecRev k else p.baseOffset k

def packedRev (p : DvsecParams) (k : DvsecKind) : Nat :=
  (listLen k <<< 4 ||| storedRev p k) % 2 ^ 16

/-- The first loop is done with the structures `done`. -/
structure Done (p : DvsecParams) (done : List DvsecKind) (s : DvsecState) : Prop where
  marks : ∀ b, s.addrmap b = true → ∃ k ∈ done, Configured p k ∧
    p.baseOffset k ≤ b ∧ b < p.baseOffset k + extent k
  mem : ∀ o, o ∈ s.offsetlist ↔ ∃ k ∈ done, Configured p k ∧ p.baseOffset k = o
  header : ∀ k ∈ done, Configured p k →
    Header s.config (p.baseOffset k) (ownId k) (packedRev p k)

/-- The row of a structure, with the values the switch gives it. -/
structure RowOf (p : DvsecParams) (k : DvsecKind) (row : DvsecRow) : Prop where
  offset : row.offset p = p.baseOffset k
  revision : row.revision p = storedRev p k
  id : row.id = ownId k
  len : row.len = listLen k

variable {p : DvsecParams} {done : List DvsecKind} {s : DvsecState} {k : DvsecKind} {row : DvsecRow}

theorem Layout.far (hl : Layout p) (hk : Configured p k) (hk' : Configured p k')
    (hne : k ≠ k') : p.baseOffset k + dvsecHeaderSize ≤ p.baseOffset k' ∨
      p.baseOffset k' + dvsecHeaderSize ≤ p.baseOffset k := by
  have hap := hl.disjoint k k' hk hk' hne
  simp only [Apart, extent] at hap
  omega

theorem initCxlDvsec_skip (h : row.offset p ≤ 0) : initCxlDvsec p s row = .ok s := by
  rw [initCxlDvsec, testRange, if_pos (.inl h)]
  rfl

theorem Done.skip (hd : Done p done s) (hk : ¬ Configured p k) : Done p (done ++ [k]) s where
  marks b hb := by
    obtain ⟨k', hk', hin⟩ := hd.marks b hb
    exact ⟨k', mem_append_left _ hk', hin⟩
  mem o := by
    rw [hd.mem]
    constructor
    · rintro ⟨k', hk', hc⟩
      exact ⟨k', mem_append_left _ hk', hc⟩
    · rintro ⟨k', hk', hc⟩
      rcases mem_append.1 hk' with hk' | hk'
      · exact ⟨k', hk', hc⟩
      · rw [mem_singleton.1 hk'] at hc
        exact absurd hc.1 hk
  header := forall_mem_append.2 ⟨hd.header, forall_mem_singleton.2 fun hc => absurd hc hk⟩

theorem Done.testRange_ok (hl : Layout p) (hd : Done p done s) (hk : k ∉ done)
    (hc : Configured p k) :
    ∃ m, testRange s.addrmap (p.baseOffset k) (listLen k) = .ok (m, true) ∧
      ∀ b, m b = true → s.addrmap b = true ∨
        p.baseOffset k ≤ b ∧ b < p.baseOffset k + extent k := by
  have hin := hl.inside k hc
  have hle : listLen k ≤ extent k := le_max_left _ _
  have hfree : ∀ b, p.baseOffset k ≤ b → b < p.baseOffset k + listLen k → s.addrmap b = false := by
    intro b hb hb'
    by_contra hm
    obtain ⟨k', hk', hc', hlo, hhi⟩ := hd.marks b (by simpa using hm)
    have hne : k ≠ k' := fun he => hk (he ▸ hk')
    have hap := hl.disjoint k k' hc hc' hne
    simp only [Apart] at hap
    omega
  obtain ⟨m, hrun, hm⟩ := testRangeLoop_free (by omega) hfree
  refine ⟨m, ?_, fun b hb => (hm b hb).imp_right fun h => ⟨h.1, by omega⟩⟩
  have hpos : p.baseOffset k ≠ 0 := hc
  rw [testRange, if_neg (by omega)]
  exact hrun

theorem Done.init (hl : Layout p) (hd : Done p done s) (hk : k ∉ done) (hc : Configured p k)
    (hrow : RowOf p k row) : ∃ s', initCxlDvsec p s row = .ok s' ∧ Done p (done ++ [k]) s' := by
  obtain ⟨m, htest, hm⟩ := hd.testRange_ok hl hk hc
  have habove := hl.above k hc
  have hin := hl.inside k hc
  have hhead : dvsecHeaderSize ≤ extent k := le_max_right _ _
  rw [initCxlDvsec, hrow.offset, hrow.len, hrow.id, hrow.revision, htest, ok_bind]
  refine ⟨_, (if_neg (by decide)).trans ((if_neg (by omega)).trans (if_neg (by omega))), ?_⟩
  constructor
  · intro b hb
    rcases hm b hb with hb | hb
    · obtain ⟨k', hk', hin'⟩ := hd.marks b hb
      exact ⟨k', mem_append_left _ hk', hin'⟩
    · exact ⟨k, mem_append_right _ mem_cons_self, hc, hb⟩
  · intro o
    rw [mem_insertOffset, hd.mem]
    constructor
    · rintro (rfl | ⟨k', hk', hc'⟩)
      · exact ⟨k, mem_append_right _ mem_cons_self, hc, rfl⟩
      · exact ⟨k', mem_append_left _ hk', hc'⟩
    · rintro ⟨k', hk', hc'⟩
      rcases mem_append.1 hk' with hk' | hk'
      · exact .inr ⟨k', hk', hc'⟩
      · rw [mem_singleton.1 hk'] at hc'
        exact .inl hc'.2.symm
  · refine forall_mem_append.2 ⟨fun k' hk' hc' => ?_, forall_mem_singleton.2 fun _ => ?_⟩
    · have hfar := hl.far hc hc' fun he => hk (he ▸ hk')
      refine (hd.header k' hk' hc').congr fun b hb hb' _ _ => initCxlDVSECHeader_outside ?_
      omega
    · refine initCxlDVSECHeader_header ?_ _ _
      cases k <;> decide

/-- A row is one of a structure, or it is skipped. -/
theorem row_cases (p : DvsecParams) : ∀ row ∈ dvsecRows,
    (row.kind = none ∧ row.offset p = -1) ∨ ∃ k, row.kind = some k ∧ RowOf p k row := by
  intro row hrow
  simp only [dvsecRows, mem_cons, not_mem_nil, or_false] at hrow
  rcases hrow with rfl | rfl | rfl | rfl | rfl | rfl | rfl | rfl | rfl | rfl | rfl
  all_goals first
    | exact .inl ⟨rfl, rfl⟩
    | exact .inr ⟨_, rfl, rfl, rfl, rfl, rfl⟩

theorem Done.rows (hl : Layout p) {rows : List DvsecRow} (hd : Done p done s)
    (hrows : ∀ row ∈ rows, row ∈ dvsecRows)
    (hnodup : (done ++ rows.filterMap DvsecRow.kind).Nodup) :
    ∃ s', rows.foldlM (initCxlDvsec p) s = .ok s' ∧
      Done p (done ++ rows.filterMap DvsecRow.kind) s' := by
  induction rows generalizing done s with
  | nil => exact ⟨s, rfl, by simpa using hd⟩
  | cons row rows ih =>
    have hrest : ∀ r ∈ rows, r ∈ dvsecRows := fun r hr => hrows r (mem_cons_of_mem _ hr)
    rw [foldlM_cons]
    rcases row_cases p row (hrows row mem_cons_self) with ⟨hkind, hoff⟩ | ⟨k, hkind, hrow⟩
    · rw [filterMap_cons_none hkind] at hnodup ⊢
      rw [initCxlDvsec_skip (by omega)]
      exact ih hd hrest hnodup
    · rw [filterMap_cons_some hkind, ← singleton_append, ← append_assoc]
        at hnodup ⊢
      by_cases hc : Configured p k
      · have hk : k ∉ done := by
          intro hmem
          have hdis := (nodup_append.1 (nodup_append.1 hnodup).1).2.2
          exact hdis k hmem k mem_cons_self rfl
        obtain ⟨s', hrun, hd'⟩ := hd.init hl hk hc hrow
        rw [hrun]
        exact ih hd' hrest hnodup
      · have hzero : row.offset p = 0 := by
          rw [hrow.offset, Int.natCast_eq_zero]
          exact not_not.1 hc
        rw [initCxlDvsec_skip hzero.le]
        exact ih (hd.skip hc) hrest hnodup

theorem kind_mem_rows (k : DvsecKind) : k ∈ dvsecRows.filterMap DvsecRow.kind := by
  cases k <;> decide

/-- What `initCxlDvsecs` leaves: the headers, with lengths and revisions packed,
and a list that ends at its first header. -/
theorem init_spec (hl : Layout p) (config : Bytes) :
    ∃ c, initCxlDvsecs p config = .ok c ∧ nextOffset c 0x100 = 0 ∧
      ∀ k, Configured p k → Header c (p.baseOffset k) (ownId k) (packedRev p k) := by
  have hstart : Done p [] ⟨fun _ => false, [], config⟩ :=
    ⟨fun b hb => (by simp at hb), fun o => (by simp), fun k hk => absurd hk not_mem_nil⟩
  obtain ⟨s, hrun, hd⟩ := hstart.rows hl (fun _ h => h) (by decide)
  have hapart : ∀ k, Configured p k → ∀ x ∈ s.offsetlist, x = p.baseOffset k ∨
      x + dvsecHeaderSize ≤ p.baseOffset k ∨ p.baseOffset k + dvsecHeaderSize ≤ x := by
    intro k hk x hx
    obtain ⟨k', -, hk', rfl⟩ := (hd.mem x).1 hx
    by_cases he : k' = k
    · exact .inl (by rw [he])
    · exact .inr (hl.far hk' hk he)
  refine ⟨link s.config s.offsetlist, ?_, ?_, fun k hk => ?_⟩
  · rw [initCxlDvsecs, hrun]
    rfl
  · obtain ⟨k, hk⟩ := hl.first
    have hc : Configured p k := by
      rw [Configured, hk]
      decide
    have hmem : 0x100 ∈ s.offsetlist := (hd.mem _).2 ⟨k, kind_mem_rows k, hc, hk⟩
    have hsmall := link_first (c := s.config) (by decide) (hk ▸ hapart k hc)
      (.inl hmem)
    simp only [verNext] at hsmall
    rw [nextOffset, readLE_four]
    have := readLE_lt (link s.config s.offsetlist) 0x100 2
    omega
  · exact link_header (hd.header k (kind_mem_rows k) hk) (hapart k hk)

/-! ## Discovery -/

theorem walk_first {fuel : Nat} (hend : nextOffset c o = 0) (h : walk c fuel o = some l) :
    l = [o] := by
  cases fuel with
  | zero => exact nomatch h
  | succ fuel =>
    rw [walk, if_pos hend] at h
    exact (Option.some.inj h).symm

theorem Layout.unique (hl : Layout p) (hk : p.baseOffset k = 0x100)
    (hk' : p.baseOffset k' = 0x100) : k' = k := by
  by_contra hne
  have hc : ∀ j, p.baseOffset j = 0x100 → Configured p j := fun j hj => by
    rw [Configured, hj]
    decide
  have := hl.far (hc k' hk') (hc k hk) hne
  simp only [dvsecHeaderSize] at this
  omega

theorem Discovers.only (hl : Layout p) (hd : Discovers p c) (hend : nextOffset c 0x100 = 0)
    (hk : p.baseOffset k = 0x100) (hc : Configured p k') : k' = k := by
  obtain ⟨fuel, l, hwalk, -, hmem⟩ := hd.visits
  rw [walk_first hend hwalk] at hmem
  exact hl.unique hk (mem_singleton.1 ((hmem _).2 ⟨k', hc, rfl⟩))

/-- The packed word of the structure at 0x100 holds its length and its revision
only in these cases. -/
theorem packedRev_iff (hk : p.baseOffset k = 0x100) (hrev : p.dvsecRev k < 16) :
    packedRev p k / 16 = listLen k ∧ packedRev p k % 16 = p.dvsecRev k ↔
      k = .pcieDvsecForCxlDev ∨ listLen k = 0x10 ∧ p.dvsecRev k = 0 := by
  cases k
  case pcieDvsecForCxlDev =>
    simp only [packedRev, storedRev, listLen, if_true, true_or, iff_true]
    have hor := Nat.two_pow_add_eq_or_of_lt (i := 4) hrev 0x3C
    rw [Nat.shiftLeft_eq, ← hor]
    omega
  -- the offset 0x100 in the place of a revision sets bit 4 of the length
  all_goals simp [packedRev, storedRev, listLen, hk, eq_comm]

/-- **Discovery.** In every legal layout, and whatever the space held before,
software finds the structures of the device exactly when there is one and it is
the PCIe DVSEC or a structure of 16 bytes of revision 0. -/
theorem discovers_iff (p : DvsecParams) (config : Bytes) (hl : Layout p) :
    (∃ c, initCxlDvsecs p config = .ok c ∧ Discovers p c) ↔ Lone p := by
  obtain ⟨c, hinit, hend, hheader⟩ := init_spec hl config
  obtain ⟨k, hk⟩ := hl.first
  have hc : Configured p k := by
    rw [Configured, hk]
    decide
  have hpacked := (hheader k hc).packed
  constructor
  · rintro ⟨c', hinit', hd⟩
    cases hinit.symm.trans hinit'
    refine ⟨k, hk, fun k' hc' => hd.only hl hend hk hc', ?_⟩
    rw [← packedRev_iff hk (hl.fourBit k), ← hpacked]
    exact ⟨(hd.decodes k hc).length, (hd.decodes k hc).revision⟩
  · rintro ⟨k', hk', honly, hcase⟩
    cases hl.unique hk hk'
    have hfields := (packedRev_iff hk (hl.fourBit k)).2 hcase
    rw [← hpacked] at hfields
    refine ⟨c, hinit, ⟨1, [0x100], ?_, pairwise_singleton _ _, fun o => ?_⟩, fun k' hc' => ?_⟩
    · rw [walk, if_pos hend]
    · rw [mem_singleton]
      constructor
      · rintro rfl
        exact ⟨k, hc, hk⟩
      · rintro ⟨k', hc', rfl⟩
        rw [honly k' hc', hk]
    · rw [honly k' hc']
      have hh := hheader k hc
      exact ⟨hh.capability, hh.vendor, hh.id, hfields.1, hfields.2⟩

def pcieOnly : DvsecParams where
  baseOffset k := if k = .pcieDvsecForCxlDev then 0x100 else 0
  dvsecRev _ := 2

theorem pcieOnly_layout : Layout pcieOnly := by
  have hpcie : ∀ k, Configured pcieOnly k → k = .pcieDvsecForCxlDev := by
    intro k
    cases k <;> simp [Configured, pcieOnly]
  refine ⟨?_, ?_, ?_, ?_, ⟨.pcieDvsecForCxlDev, rfl⟩, fun _ => (by decide : 2 < 16)⟩
  · intro k
    cases k <;> rfl
  · intro k hk
    rw [hpcie k hk]
    decide
  · intro k hk
    rw [hpcie k hk]
    decide
  · intro k k' hk hk' hne
    exact absurd ((hpcie k hk).trans (hpcie k' hk').symm) hne

theorem discovers_iff_pcieOnly : ∃ c, initCxlDvsecs pcieOnly (fun _ => 0) = .ok c ∧
    Discovers pcieOnly c :=
  (discovers_iff pcieOnly (fun _ => 0) pcieOnly_layout).2
    ⟨.pcieDvsecForCxlDev, rfl, fun k hk => by revert hk; cases k <;> simp [Configured, pcieOnly],
      .inl rfl⟩

/-- A device with a PCIe DVSEC at 0x100 and an MLD DVSEC at 0x200. -/
def pcieAndMld : DvsecParams where
  baseOffset
    | .pcieDvsecForCxlDev => 0x100
    | .mld => 0x200
    | _ => 0
  dvsecRev _ := 0

theorem pcieAndMld_layout : Layout pcieAndMld := by
  refine ⟨?_, ?_, ?_, ?_, ⟨.pcieDvsecForCxlDev, rfl⟩, fun _ => (by decide : 0 < 16)⟩
  · intro k
    cases k <;> rfl
  · intro k
    cases k <;> simp [Configured, pcieAndMld]
  · intro k
    cases k <;> simp [Configured, pcieAndMld, extent, listLen, dvsecHeaderSize]
  · intro k k'
    cases k <;> cases k' <;>
      simp [Configured, Apart, pcieAndMld, extent, listLen, dvsecHeaderSize]

/-- The walk never leaves the header at 0x100. -/
theorem second_structure_hidden : Layout pcieAndMld ∧
    ¬ ∃ c, initCxlDvsecs pcieAndMld (fun _ => 0) = .ok c ∧ Discovers pcieAndMld c := by
  refine ⟨pcieAndMld_layout, ?_⟩
  rintro ⟨c, hinit, hd⟩
  obtain ⟨c', hinit', hend, -⟩ := init_spec pcieAndMld_layout (fun _ => 0)
  cases hinit.symm.trans hinit'
  have hmld : Configured pcieAndMld .mld := (by decide : 0x200 ≠ 0)
  exact nomatch hd.only pcieAndMld_layout hend (k := .pcieDvsecForCxlDev) rfl hmld

end Gem5Cxl.L3.DvsecWalk
