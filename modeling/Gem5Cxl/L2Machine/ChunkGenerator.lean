import Gem5Cxl.Core.Tiling
import Gem5Cxl.L1Message.Packet

/-!
# Chunk generator (`base/chunk_generator.hh`)

A generator walks a region of the 64-bit address space in chunks of at most
`chunkSize` bytes, cut at multiples of `chunkSize`. It keeps five counters
that each call of `next` moves along.

* `At c g p rest`: `g` stands at the chunk `p` and `rest` is what it still has
  to offer. `next` moves along that list (`At.next_cons`, `At.next_nil`).
* `Fits c a s`: the region can be walked. Addresses wrap at 2^64, so the
  generator is right for a region below the last line, and for one that starts
  in the last line only when it ends with the address space.
* `new_at`: a generator on a region that fits stands at the first of the
  region's line chunks.
* `new_lastLine`, `new_toEnd`: the first chunk when the region does not fit.
-/
namespace Gem5Cxl.L2

open Core

def add64 (x y : Nat) : Nat := (x + y) % 2 ^ 64

def sub64 (x y : Nat) : Nat := (x + (2 ^ 64 - y)) % 2 ^ 64

/-- mirrors base/intmath.hh:258-265; `~mask` is `2 ^ 64 - align` -/
def roundUp (val align : Nat) : Nat := add64 val (align - 1) &&& (2 ^ 64 - align)

/-- mirrors chunk_generator.hh:60-81 -/
structure ChunkGenerator where
  curAddr : Nat
  nextAddr : Nat
  curSize : Nat
  nextSize : Nat
  sizeLeft : Nat
  startAddr : Nat
  chunkSize : Nat
deriving DecidableEq, Repr

namespace ChunkGenerator

/-- mirrors chunk_generator.hh:93-106, the choice of `nextAddr` -/
def firstBound (startAddr totalSize chunkSize : Nat) : Nat :=
  if chunkSize = 0 then add64 startAddr totalSize else
    let nextAddr := roundUp startAddr chunkSize
    let nextAddr := if startAddr = nextAddr then add64 nextAddr chunkSize else nextAddr
    min nextAddr (add64 startAddr totalSize)

/-- mirrors chunk_generator.hh:87-118 -/
def new (startAddr totalSize chunkSize : Nat) : ChunkGenerator :=
  let nextAddr := firstBound startAddr totalSize chunkSize
  let curSize := sub64 nextAddr startAddr
  let sizeLeft := sub64 totalSize curSize
  { curAddr := startAddr, nextAddr, curSize, nextSize := min sizeLeft chunkSize, sizeLeft,
    startAddr, chunkSize }

variable (g : ChunkGenerator)

/-- mirrors chunk_generator.hh:124 -/
def addr : Nat := g.curAddr

/-- mirrors chunk_generator.hh:126 -/
def size : Nat := g.curSize

/-- mirrors chunk_generator.hh:132 -/
def complete : Nat := sub64 g.curAddr g.startAddr

/-- mirrors chunk_generator.hh:141 -/
def done : Bool := g.curSize = 0

/-- mirrors chunk_generator.hh:148 -/
def last : Bool := g.sizeLeft = 0

/-- mirrors chunk_generator.hh:183-197 -/
def next : Bool × ChunkGenerator :=
  if g.last then (false, { g with curSize := 0 }) else
    let sizeLeft := sub64 g.sizeLeft g.nextSize
    (true, { g with
      curAddr := g.nextAddr
      curSize := g.nextSize
      sizeLeft
      nextAddr := add64 g.nextAddr g.nextSize
      nextSize := min sizeLeft g.chunkSize })

/-- Grow the chunk up to `next`. mirrors chunk_generator.hh:156-174 -/
def setNext (next : Nat) : Except L1.Fault ChunkGenerator :=
  if next < g.nextAddr then .error (.assertion .notBeforeNext)
  else if g.chunkSize = 0 then .error (.assertion .chunkSizeNonzero)
  else
    let skipping := min (next - g.nextAddr) g.sizeLeft
    let sizeLeft := g.sizeLeft - skipping
    let nextSize := sub64 (roundUp next g.chunkSize) next
    .ok { g with
      sizeLeft
      curSize := add64 g.curSize skipping
      nextAddr := next
      nextSize := if nextSize = 0 then min sizeLeft g.chunkSize else nextSize }

@[simp] theorem next_startAddr : g.next.2.startAddr = g.startAddr := by
  unfold next
  split <;> rfl

def Bounded : Prop := g.curAddr < 2 ^ 64 ∧ g.nextAddr < 2 ^ 64

theorem Bounded.next {g : ChunkGenerator} (h : g.Bounded) : g.next.2.Bounded := by
  unfold ChunkGenerator.next
  split
  · exact h
  · exact ⟨h.2, Nat.mod_lt _ (by decide)⟩

theorem bounded_new {a : Nat} (ha : a < 2 ^ 64) (s c : Nat) : (new a s c).Bounded := by
  refine ⟨ha, ?_⟩
  show firstBound a s c < 2 ^ 64
  have hadd : add64 a s < 2 ^ 64 := Nat.mod_lt _ (by decide)
  unfold firstBound
  split
  · exact hadd
  · exact lt_of_le_of_lt (min_le_right _ _) hadd

/-! ## The chunks a generator has to offer -/

/-- `g` stands at `p`; `rest` is what comes after it. -/
structure At (c : Nat) (g : ChunkGenerator) (p : Chunk) (rest : List Chunk) : Prop where
  curAddr : g.curAddr = p.addr
  curSize : g.curSize = p.size
  nextAddr : rest ≠ [] → g.nextAddr = p.addr + p.size
  sizeLeft : g.sizeLeft = bytes rest
  nextSize : g.nextSize = min (bytes rest) c
  chunkSize : g.chunkSize = c
  cut : rest = lineChunks c (p.addr + p.size) (bytes rest)
  aligned : rest ≠ [] → (p.addr + p.size) % c = 0
  bound : rest ≠ [] → p.addr + p.size + bytes rest < 2 ^ 64

section At

variable {c : Nat} {g : ChunkGenerator} {p : Chunk} {rest : List Chunk} {x : Bool × ChunkGenerator}
  {t : List Chunk}

theorem At.bytes_pos (hc : 0 < c) (h : At c g p rest) (hr : rest ≠ []) : 0 < bytes rest := by
  obtain ⟨q, l, rfl⟩ := List.exists_cons_of_ne_nil hr
  have hq := lineChunks_pos hc (p.addr + p.size) (bytes (q :: l)) q (h.cut ▸ List.mem_cons_self)
  simp only [bytes_cons]
  omega

theorem At.last_iff (hc : 0 < c) (h : At c g p rest) : g.last = true ↔ rest = [] := by
  simp only [last, h.sizeLeft, decide_eq_true_eq]
  constructor
  · intro h0
    by_contra hr
    have := h.bytes_pos hc hr
    omega
  · rintro rfl
    rfl

theorem At.next_nil (h : At c g p []) : g.next = (false, { g with curSize := 0 }) := by
  have hl : g.last = true := by simp [last, h.sizeLeft]
  simp [next, hl]

/-- The end of the region as `next` sees it: it stays there. -/
theorem next_done (hg : g.sizeLeft = 0) : g.next = (false, { g with curSize := 0 }) := by
  have hl : g.last = true := by simp [last, hg]
  simp [next, hl]

/-- The generator has come to `b` with `l` bytes to go: it stands at those in the line of `b`. -/
theorem at_line {a b l n : Nat} (hc : 0 < c) (hb : b + l < 2 ^ 64) (hn : n = min l (c - b % c)) :
    At c ⟨b, b + n, n, min (l - n) c, l - n, a, c⟩ ⟨b, n⟩ (lineChunks c (b + n) (l - n)) := by
  have hbytes := (lineChunks_tiles hc (b + n) (l - n)).bytes_eq
  refine ⟨rfl, rfl, fun _ => rfl, hbytes.symm, by rw [hbytes], rfl, by rw [hbytes], fun hne => ?_, fun _ => ?_⟩
  · -- something is left, so the chunk goes to the end of its line
    have hlong : c - b % c < l := by
      by_contra hle
      have hz : l - n = 0 := by omega
      exact hne (by rw [hz, lineChunks_zero])
    rw [hn, first_end hc b hlong, Nat.mul_mod_left]
  · rw [hbytes]
    dsimp only
    omega

theorem At.next_cons (hc : 0 < c) {q : Chunk} (h : At c g p (q :: rest)) :
    ∃ g', g.next = (true, g') ∧ At c g' q rest := by
  have hne : q :: rest ≠ [] := List.cons_ne_nil _ _
  have hpos := h.bytes_pos hc hne
  have hb := h.bound hne
  have hl : g.last = false := by
    simp only [last, h.sizeLeft, decide_eq_false_iff_not]
    omega
  -- the next chunk starts a line, so it is a whole line or the rest of the region
  have hsize : g.nextSize = min (bytes (q :: rest)) (c - (p.addr + p.size) % c) := by
    rw [h.aligned hne, Nat.sub_zero, h.nextSize]
  have hsub : sub64 g.sizeLeft g.nextSize = bytes (q :: rest) - g.nextSize := by
    rw [h.sizeLeft, sub64]
    omega
  have hadd : add64 g.nextAddr g.nextSize = p.addr + p.size + g.nextSize := by
    rw [h.nextAddr hne, add64]
    omega
  have hcut := h.cut
  rw [lineChunks_cons hc _ hpos, ← hsize] at hcut
  refine ⟨_, by rw [next, if_neg (by simp [hl])], ?_⟩
  rw [hsub, hadd, h.nextAddr hne, h.chunkSize]
  generalize bytes (q :: rest) = l at *
  cases hcut
  exact at_line hc hb hsize

/-- What a call of `next` left: the chunks `t`, and its answer whether there are any. -/
def Left (c : Nat) (x : Bool × ChunkGenerator) (t : List Chunk) : Prop :=
  (t = [] ∧ x.1 = false ∧ x.2.sizeLeft = 0) ∨ ∃ p t', t = p :: t' ∧ x.1 = true ∧ At c x.2 p t'

theorem At.next_left (hc : 0 < c) (h : At c g p rest) : Left c g.next rest := by
  cases rest with
  | nil =>
    rw [h.next_nil]
    exact .inl ⟨rfl, rfl, h.sizeLeft⟩
  | cons q rest =>
    obtain ⟨g', hg, hat⟩ := h.next_cons hc
    rw [hg]
    exact .inr ⟨q, rest, rfl, rfl, hat⟩

/-- Calling `next` once more drops one more chunk, and at the end nothing. -/
theorem Left.next (hc : 0 < c) (h : Left c x t) : Left c x.2.next t.tail := by
  rcases h with ⟨rfl, -, h0⟩ | ⟨p, t', rfl, -, hat⟩
  · rw [next_done h0]
    exact .inl ⟨rfl, rfl, h0⟩
  · exact hat.next_left hc

theorem Left.more (h : Left c x t) : x.1 = false ↔ t = [] := by
  rcases h with ⟨rfl, hx, -⟩ | ⟨p, t', rfl, hx, -⟩ <;> simp [hx]

end At

/-! ## Starting a generator -/

/-- The regions a generator can walk. -/
def Fits (c a s : Nat) : Prop :=
  (a + c < 2 ^ 64 ∧ a + s < 2 ^ 64) ∨ (2 ^ 64 ≤ a + c ∧ a + s = 2 ^ 64)
  deriving Decidable

/-- The chunks of a request. A request of no bytes still makes one, empty, chunk. -/
def chunks (c a s : Nat) : List Chunk := if s = 0 then [⟨a, 0⟩] else lineChunks c a s

theorem chunks_pos {c a s : Nat} (hs : 0 < s) : chunks c a s = lineChunks c a s :=
  if_neg (by omega)

@[simp] theorem bytes_chunks {c : Nat} (hc : 0 < c) (a s : Nat) : bytes (chunks c a s) = s := by
  unfold chunks
  split
  · rename_i hs
    simp [hs]
  · exact (lineChunks_tiles hc a s).bytes_eq

theorem addr_of_chunks {c a s : Nat} {l rest : List Chunk} {q : Chunk} (hc : 0 < c)
    (h : chunks c a s = l ++ q :: rest) : q.addr = a + bytes l := by
  unfold chunks at h
  split at h
  · cases l with
    | nil =>
      cases h
      rfl
    | cons p l => simp at h
  · exact (h ▸ lineChunks_tiles hc a s).addr_of_append

section New

variable {k a s : Nat}

theorem roundUp_eq (hk : k < 64) (ha : a < 2 ^ 64) :
    roundUp a (2 ^ k) = (if a % 2 ^ k = 0 then a else (a / 2 ^ k + 1) * 2 ^ k) % 2 ^ 64 := by
  obtain ⟨m, hm⟩ : ∃ m, 2 ^ 64 = m * 2 ^ k :=
    ⟨2 ^ (64 - k), by rw [← pow_add]; congr 1; omega⟩
  have hd := Nat.div_add_mod a (2 ^ k)
  have hx : add64 a (2 ^ k - 1) < 2 ^ 64 := Nat.mod_lt _ (by decide)
  -- rounding up is division on natural numbers, up to the wrap
  rw [roundUp, and_high hk.le hx, add64, hm, Nat.mod_mul_left_div_self, ← Nat.mul_mod_mul_right]
  congr 1
  split
  · have hq : (a + (2 ^ k - 1)) / 2 ^ k = a / 2 ^ k := by
      refine Nat.div_eq_of_lt_le ?_ ?_
      · rw [mul_comm]
        omega
      · rw [add_mul, mul_comm (a / 2 ^ k)]
        omega
    rw [hq, mul_comm]
    omega
  · congr 1
    refine Nat.div_eq_of_lt_le ?_ ?_
    · rw [add_mul, mul_comm (a / 2 ^ k)]
      omega
    · rw [add_mul, add_mul, mul_comm (a / 2 ^ k)]
      omega

/-- Where the line after `a` starts, as the constructor computes it. -/
theorem firstBound_eq (hk : k < 64) (ha : a < 2 ^ 64) :
    firstBound a s (2 ^ k) = min ((a / 2 ^ k + 1) * 2 ^ k % 2 ^ 64) (add64 a s) := by
  have hd := Nat.div_add_mod a (2 ^ k)
  rw [firstBound, if_neg (by omega), roundUp_eq hk ha]
  dsimp only
  congr 1
  split
  · -- `a` is aligned: the bound moves on by a line
    rw [Nat.mod_eq_of_lt ha, if_pos rfl, add64, add_mul, mul_comm (a / 2 ^ k)]
    congr 1
    omega
  · rename_i h0
    refine if_neg fun he => h0 ?_
    obtain ⟨m, hm⟩ : 2 ^ k ∣ 2 ^ 64 := pow_dvd_pow 2 hk.le
    rw [he, hm, mul_comm _ m, Nat.mul_mod_mul_right, Nat.mul_mod_left]

theorem new_lastLine (hk : k < 64) (ha : a < 2 ^ 64) (hl : 2 ^ 64 ≤ a + 2 ^ k) :
    (new a s (2 ^ k)).curSize = 2 ^ 64 - a ∧ (new a s (2 ^ k)).sizeLeft = sub64 s (2 ^ 64 - a) := by
  have hc : 0 < 2 ^ k := Nat.two_pow_pos k
  have hdvd : 2 ^ k ∣ 2 ^ 64 := pow_dvd_pow 2 hk.le
  have hd := Nat.div_add_mod a (2 ^ k)
  -- the next line starts at 2^64, that is at 0
  have hnext : (a / 2 ^ k + 1) * 2 ^ k = 2 ^ 64 := by
    have hle := line_end_le hdvd ha
    have hge := line_next hc hdvd hl
    rw [add_mul, mul_comm (a / 2 ^ k)]
    omega
  have hb : firstBound a s (2 ^ k) = 0 := by
    rw [firstBound_eq hk ha, hnext, Nat.mod_self, Nat.zero_min]
  have hs : sub64 0 a = 2 ^ 64 - a ∨ a = 0 := by
    rw [sub64]
    omega
  have ha0 : a ≠ 0 := by
    have : 2 ^ k < 2 ^ 64 := Nat.pow_lt_pow_right (by decide) hk
    omega
  have hsize : sub64 0 a = 2 ^ 64 - a := hs.resolve_right ha0
  simp only [new, hb, hsize, and_self]

/-- Below the last line the first chunk ends at the next line, or with the region. -/
theorem new_below (hk : k < 64) (hl : a + 2 ^ k < 2 ^ 64) (hs : a + s < 2 ^ 64) :
    firstBound a s (2 ^ k) = a + min s (2 ^ k - a % 2 ^ k) := by
  have hd := Nat.div_add_mod a (2 ^ k)
  have hnext : (a / 2 ^ k + 1) * 2 ^ k = a + (2 ^ k - a % 2 ^ k) := by
    rw [add_mul, mul_comm (a / 2 ^ k)]
    omega
  rw [firstBound_eq hk (by omega), add64]
  omega

theorem new_eq (hk : k < 64) (hl : a + 2 ^ k < 2 ^ 64) (hs : a + s < 2 ^ 64) {n : Nat}
    (hn : n = min s (2 ^ k - a % 2 ^ k)) :
    new a s (2 ^ k) = ⟨a, a + n, n, min (s - n) (2 ^ k), s - n, a, 2 ^ k⟩ := by
  have hsize : sub64 (a + n) a = n := by
    rw [sub64]
    omega
  have hleft : sub64 s n = s - n := by
    rw [sub64]
    omega
  simp only [new, new_below hk hl hs, ← hn, hsize, hleft]

/-- A region below the last line that ends with the address space is one chunk. -/
theorem new_toEnd (hk : k < 64) (hl : a + 2 ^ k < 2 ^ 64) (hs : a + s = 2 ^ 64)
    (hs' : s < 2 ^ 64) : (new a s (2 ^ k)).curSize = s := by
  have hc : 0 < 2 ^ k := Nat.two_pow_pos k
  have hb : firstBound a s (2 ^ k) = 0 := by
    rw [firstBound_eq hk (by omega), add64, hs, Nat.mod_self, Nat.min_zero]
  simp only [new, hb, sub64]
  omega

/-- **A generator on a region that fits stands at the first of its chunks.** -/
theorem new_at (hk : k < 64) (ha : a < 2 ^ 64) (hf : Fits (2 ^ k) a s) :
    ∃ p rest, chunks (2 ^ k) a s = p :: rest ∧ At (2 ^ k) (new a s (2 ^ k)) p rest := by
  have hc : 0 < 2 ^ k := Nat.two_pow_pos k
  rcases hf with ⟨hl, hs⟩ | ⟨hl, hs⟩
  · -- below the last line
    refine ⟨_, _, ?_, new_eq hk hl hs rfl ▸ at_line hc hs rfl⟩
    rcases Nat.eq_zero_or_pos s with rfl | hpos
    · simp [chunks]
    · rw [chunks_pos hpos, lineChunks_cons hc a hpos]
  · -- in the last line, to the end of the address space: one chunk
    obtain ⟨hsize, hleft⟩ := new_lastLine hk ha hl
    have hsa : 2 ^ 64 - a = s := by omega
    rw [hsa] at hsize hleft
    have hz : sub64 s s = 0 := by
      rw [sub64]
      omega
    rw [hz] at hleft
    have hpos : 0 < s := by omega
    have hone : min s (2 ^ k - a % 2 ^ k) = s := by
      refine min_eq_left ?_
      have hle := line_next hc (pow_dvd_pow 2 hk.le) hl
      omega
    refine ⟨⟨a, s⟩, [], ?_, ?_⟩
    · rw [chunks_pos hpos, lineChunks_cons hc a hpos, hone, Nat.sub_self, lineChunks_zero]
    · constructor
      · rfl
      · exact hsize
      · exact absurd rfl
      · exact hleft
      · have h : (new a s (2 ^ k)).nextSize = min (new a s (2 ^ k)).sizeLeft (2 ^ k) := rfl
        rw [h, hleft]
        simp
      · rfl
      · simp
      · exact absurd rfl
      · exact absurd rfl

end New

end ChunkGenerator

end Gem5Cxl.L2
