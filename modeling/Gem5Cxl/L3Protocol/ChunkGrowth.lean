import Gem5Cxl.Core.Lts
import Gem5Cxl.L2Machine.ChunkGenerator

/-!
# Chunks that are grown

`setNext` lets the current chunk of a generator run on over bytes that are handled already.

* `chunks_partition`: in any order of `next` and `setNext` the chunks cover the region one after the
  other, if `setNext` leaves no part of a block at its end (`Fits`).
* `setNext_past_end`: otherwise the chunk after it runs past the end of the region.
-/
namespace Gem5Cxl.L3.ChunkGrowth

open Core L1 L2 ChunkGenerator List Machine

/-- A generator, and the chunks it has been past, each with whether it was grown. -/
structure Walk where
  gen : ChunkGenerator
  past : List (Chunk × Bool) := []
  grown : Bool := false
  calls : Nat := 0

inductive Call
  | next
  | setNext (n : Nat)

namespace Walk

/-- All chunks so far, with the one that the generator stands at. -/
def chunks (w : Walk) : List (Chunk × Bool) :=
  w.past ++ if w.gen.done then [] else [(⟨w.gen.addr, w.gen.size⟩, w.grown)]

def step (w : Walk) : Call → Except Fault Walk
  | .next => .ok { gen := w.gen.next.2, past := w.chunks, calls := w.calls + 1 }
  | .setNext n => do
    let gen ← w.gen.setNext n
    .ok { w with gen, grown := w.grown || w.gen.nextAddr < n }

end Walk

def walks (a s c : Nat) : Machine Walk Call Fault where
  init w := w = { gen := .new a s c }
  enabled w l := ∀ n, l = .setNext n → w.gen.nextAddr ≤ n ∧ n ≤ a + s
  step := Walk.step

/-- The block in which the next chunk starts ends inside the region, if a part of it is left. -/
def Fits (a s c : Nat) (_ : Walk) (l : Call) : Prop :=
  ∀ n, l = .setNext n → n % c = 0 ∨ n = a + s ∨ (n / c + 1) * c ≤ a + s

structure Partition (a s c : Nat) (w : Walk) : Prop where
  tiles : Tiles a (s - w.gen.sizeLeft) (w.chunks.map Prod.fst) ∧ w.gen.sizeLeft ≤ s
  pos : ∀ p ∈ w.chunks, 0 < p.1.size
  inLine : ∀ p ∈ w.chunks, p.2 = false → InLine c p.1
  complete : w.gen.complete + a = w.gen.addr
  last : w.gen.last = true ↔ Tiles a s (w.chunks.map Prod.fst)
  done : s ≤ w.calls → w.gen.done = true

structure Inv (a s c : Nat) (w : Walk) : Prop where
  start : w.gen.startAddr = a
  chunkSize : w.gen.chunkSize = c
  within : a ≤ w.gen.curAddr ∧ w.gen.curAddr ≤ w.gen.nextAddr
  left : w.gen.nextAddr + w.gen.sizeLeft = a + s
  next : 0 < w.gen.sizeLeft → w.gen.nextSize = min w.gen.sizeLeft (c - w.gen.nextAddr % c)
  tiles : Tiles a (w.gen.nextAddr - w.gen.curSize - a) (w.past.map Prod.fst)
  pos : ∀ p ∈ w.past, 0 < p.1.size
  inLine : ∀ p ∈ w.past, p.2 = false → InLine c p.1
  ended : w.gen.curSize = 0 → w.gen.sizeLeft = 0
  current : w.gen.curSize ≠ 0 → w.gen.curAddr + w.gen.curSize = w.gen.nextAddr ∧ w.calls = w.past.length ∧
    (w.grown = false → InLine c ⟨w.gen.curAddr, w.gen.curSize⟩)

variable {a s c k : Nat} {w : Walk}

theorem inv_line {b l calls : Nat} {past : List (Chunk × Bool)} (hc : 0 < c) (hb : a ≤ b)
    (hl : b + l = a + s)
    (htiles : Tiles a (b - a) (past.map Prod.fst)) (hpos : ∀ p ∈ past, 0 < p.1.size)
    (hin : ∀ p ∈ past, p.2 = false → InLine c p.1) (hcalls : l ≠ 0 → calls = past.length) {n : Nat}
    (hn : n = min l (c - b % c)) :
    Inv a s c ⟨⟨b, b + n, n, min (l - n) c, l - n, a, c⟩, past, false, calls⟩ := by
  have hmod := Nat.mod_lt b hc
  constructor <;> dsimp only
  · omega
  · omega
  · intro hmore
    -- more is left, so the chunk goes to the end of its line
    rw [hn, first_end hc b (by omega), Nat.mul_mod_left, Nat.sub_zero]
  · rwa [Nat.add_sub_cancel]
  · exact hpos
  · exact hin
  · omega
  · refine fun hne => ⟨rfl, hcalls (by omega), fun _ => ?_⟩
    simp only [InLine]
    omega

theorem inv_new (hk : k < 64) (hl : a + 2 ^ k < 2 ^ 64) (hs : a + s < 2 ^ 64) :
    Inv a s (2 ^ k) { gen := .new a s (2 ^ k) } := by
  rw [new_eq hk hl hs rfl]
  exact inv_line (Nat.two_pow_pos k) le_rfl rfl (by simpa using .nil a) (by simp) (by simp) (fun _ => rfl) rfl

namespace Inv

variable (h : Inv a s c w)
include h

theorem chunks :
    Tiles a (w.gen.nextAddr - a) (w.chunks.map Prod.fst) ∧ (∀ p ∈ w.chunks, 0 < p.1.size) ∧
    ∀ p ∈ w.chunks, p.2 = false → InLine c p.1 := by
  have haddr := h.within
  have htiles := h.tiles
  unfold Walk.chunks
  by_cases hz : w.gen.curSize = 0
  · simp only [done, hz, decide_true, if_true, append_nil]
    rw [hz] at htiles
    exact ⟨htiles, h.pos, h.inLine⟩
  · obtain ⟨hcur, -, hin⟩ := h.current hz
    simp only [done, hz, decide_false, Bool.false_eq_true, if_false, map_append, map_cons, map_nil]
    refine ⟨?_, forall_mem_append.2 ⟨h.pos, forall_mem_singleton.2 (Nat.pos_of_ne_zero hz)⟩,
      forall_mem_append.2 ⟨h.inLine, forall_mem_singleton.2 hin⟩⟩
    rw [← hcur, Nat.add_sub_cancel] at htiles
    rw [← hcur, Nat.sub_add_comm haddr.1]
    simpa [Nat.add_sub_cancel' haddr.1, addr, size] using htiles.snoc w.gen.curSize

theorem partition (hs : a + s < 2 ^ 64) : Partition a s c w := by
  obtain ⟨htiles, hpos, hin⟩ := h.chunks
  have haddr := h.within
  have hleft := h.left
  have heq : w.gen.nextAddr - a = s - w.gen.sizeLeft := by omega
  rw [heq] at htiles
  refine ⟨⟨htiles, by omega⟩, hpos, hin, ?_, ?_, fun hcalls => ?_⟩
  · rw [complete, h.start, sub64, addr]
    omega
  · rw [last, decide_eq_true_eq]
    refine ⟨fun hz => by rwa [hz] at htiles, fun ht => ?_⟩
    have := ht.bytes_eq.symm.trans htiles.bytes_eq
    omega
  · -- every chunk has a byte, so there are not more than `s`
    by_contra hz
    simp only [done, Bool.not_eq_true, decide_eq_false_iff_not] at hz
    obtain ⟨hcur, hlen, -⟩ := h.current hz
    have hle := length_le_bytes (forall_mem_map.2 h.pos)
    rw [h.tiles.bytes_eq, length_map] at hle
    omega

theorem advance (hc : 0 < c) (hs : a + s < 2 ^ 64) :
    Inv a s c { gen := w.gen.next.2, past := w.chunks, calls := w.calls + 1 } := by
  obtain ⟨htiles, hpos, hin⟩ := h.chunks
  have haddr := h.within
  have hleft := h.left
  by_cases hz : w.gen.sizeLeft = 0
  · rw [next_done hz]
    exact ⟨h.start, h.chunkSize, h.within, h.left, h.next, htiles, hpos, hin, fun _ => hz, absurd rfl⟩
  · have hne : w.gen.curSize ≠ 0 := fun hcur => hz (h.ended hcur)
    have hnext := h.next (Nat.pos_of_ne_zero hz)
    have hsub : sub64 w.gen.sizeLeft w.gen.nextSize = w.gen.sizeLeft - w.gen.nextSize := by
      rw [sub64]
      omega
    have hadd : add64 w.gen.nextAddr w.gen.nextSize = w.gen.nextAddr + w.gen.nextSize := by
      rw [add64]
      omega
    have hlen : w.calls + 1 = w.chunks.length := by simp [Walk.chunks, done, hne, (h.current hne).2.1]
    simp only [ChunkGenerator.next, last, hz, decide_false, Bool.false_eq_true, if_false, hsub, hadd, h.chunkSize, h.start]
    exact inv_line hc (by omega) hleft htiles hpos hin (fun _ => hlen) hnext

theorem setNext {n : Nat} (hc : c = 2 ^ k) (hk : k < 64) (hs : a + s + c ≤ 2 ^ 64)
    (hn : w.gen.nextAddr ≤ n)
    (hn' : n ≤ a + s) (hf : n % c = 0 ∨ n = a + s ∨ (n / c + 1) * c ≤ a + s) :
    ∃ g, w.gen.setNext n = .ok g ∧
      Inv a s c { w with gen := g, grown := w.grown || w.gen.nextAddr < n } := by
  have hpos : 0 < c := hc ▸ Nat.two_pow_pos k
  have haddr := h.within
  have hleft := h.left
  have hended := h.ended
  have hcur := h.current
  have hskip : min (n - w.gen.nextAddr) w.gen.sizeLeft = n - w.gen.nextAddr := by omega
  have hsize : add64 w.gen.curSize (n - w.gen.nextAddr) = w.gen.curSize + (n - w.gen.nextAddr) := by
    rw [add64]
    omega
  refine ⟨_, by rw [ChunkGenerator.setNext, if_neg (by omega), if_neg (by rw [h.chunkSize]; omega)], ?_⟩
  simp only [hskip, hsize, h.chunkSize]
  constructor <;> dsimp only
  · exact h.start
  · omega
  · omega
  · intro hmore
    have hdiv := Nat.div_add_mod n c
    have hmod := Nat.mod_lt n hpos
    have hline : (n / c + 1) * c = n + (c - n % c) := by
      rw [add_mul, mul_comm (n / c)]
      omega
    have hup : roundUp n c = if n % c = 0 then n else n + (c - n % c) := by
      subst hc
      rw [roundUp_eq hk (by omega), hline, Nat.mod_eq_of_lt]
      split <;> omega
    rw [hup, sub64]
    split <;> split <;> omega
  · have hend : n - (w.gen.curSize + (n - w.gen.nextAddr)) = w.gen.nextAddr - w.gen.curSize := by omega
    rw [hend]
    exact h.tiles
  · exact h.pos
  · exact h.inLine
  · omega
  · intro hne
    obtain ⟨-, hlen, hin⟩ := hcur (by omega)
    refine ⟨by omega, hlen, fun hg => ?_⟩
    -- a chunk that is not grown stays as it is
    rw [Bool.or_eq_false_iff, decide_eq_false_iff_not] at hg
    rw [show n - w.gen.nextAddr = 0 by omega]
    exact hin hg.1

end Inv

/-- **Partition.** -/
theorem chunks_partition (hk : k < 64) (hl : a + 2 ^ k < 2 ^ 64) (hs : a + s + 2 ^ k ≤ 2 ^ 64)
    {x : Except Fault Walk}
    (hr : ((walks a s (2 ^ k)).under (Fits a s (2 ^ k))).Reachable x) :
    ∃ w, x = .ok w ∧ Partition a s (2 ^ k) w := by
  have hc := Nat.two_pow_pos k
  obtain ⟨w, rfl, h⟩ : ∃ w, x = .ok w ∧ Inv a s (2 ^ k) w := by
    refine total ?_ ?_ hr
    · rintro _ rfl
      exact inv_new hk hl (by omega)
    · intro w l h he hf
      cases l with
      | next => exact ⟨_, rfl, h.advance hc (by omega)⟩
      | setNext n =>
        obtain ⟨hn, hn'⟩ := he n rfl
        obtain ⟨g, hg, hinv⟩ := h.setNext rfl hk hs hn hn' (hf n rfl)
        exact ⟨_, by simp only [walks, Walk.step, hg]; rfl, hinv⟩
  exact ⟨w, rfl, h.partition (by omega)⟩

/-- The first chunk of three blocks is grown over the second. -/
theorem chunks_partition_grown : ∃ w : Walk,
    w.chunks = [(⟨3, 13⟩, true), (⟨16, 7⟩, false)] ∧ w.gen.done = true ∧ Partition 3 20 8 w := by
  have h₁ := under_step (.setNext 16)
    (under_init (M := walks 3 20 (2 ^ 3)) (G := Fits 3 20 (2 ^ 3)) rfl) (by rintro n ⟨⟩; decide)
    (by rintro n ⟨⟩; decide) rfl
  have h₂ := under_step .next h₁ nofun nofun rfl
  have h₃ := under_step .next h₂ nofun nofun rfl
  obtain ⟨w, hw, hp⟩ := chunks_partition (by decide) (by decide) (by decide) h₃
  cases hw
  exact ⟨_, by decide +kernel, rfl, hp⟩

/-- **Past the end.** The region ends at 10, and its second chunk at 16. -/
theorem setNext_past_end : ∃ w, (walks 0 10 8).lts.Reachable (.ok w) ∧
    w.chunks = [(⟨0, 9⟩, true), (⟨9, 7⟩, false)] ∧ w.gen.sizeLeft = 2 ^ 64 - 6 := by
  have h₁ : (walks 0 10 8).lts.Reachable _ := .step (l := .setNext 9) (.init ⟨_, rfl, rfl⟩)
    ⟨_, rfl, by rintro n ⟨⟩; decide, rfl⟩
  exact ⟨_, .step (l := .next) h₁ ⟨_, rfl, nofun, rfl⟩, by decide +kernel, rfl⟩

end Gem5Cxl.L3.ChunkGrowth
