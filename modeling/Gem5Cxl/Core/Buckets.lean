import Mathlib.Order.Lattice
import Mathlib.Data.List.Nodup

/-!
# A priority queue in buckets

The specification of a priority queue with the last-in-first-out rule among
equals is a list `l` of its elements, the most recently inserted first: the next
one to leave is the first of `l` with the least key (`Groups.first`).

An implementation keeps the elements in buckets, one for each key, in increasing
order of keys; a bucket is its top and the elements under it. `Groups key l bs`
says that the buckets `bs` are the elements of `l` by key.

* `place`, `Groups.place`: insertion into the buckets from the first that is not
  below the new element.
* `drop`, `Groups.drop`: removal from the bucket that holds the element.
* `Groups.mem`, `Groups.nodup`: the buckets hold the elements of `l`, once each.
-/
namespace Gem5Cxl.Core

open List

variable {ι κ : Type} {x : ι}

/-- The top of a bucket and what is under it. -/
abbrev Bucket (ι : Type) := ι × List ι

def Bucket.elems (b : Bucket ι) : List ι := b.1 :: b.2

def elemsOf (bs : List (Bucket ι)) : List ι := bs.flatMap Bucket.elems

@[simp] theorem elemsOf_nil : elemsOf ([] : List (Bucket ι)) = [] := rfl

@[simp] theorem elemsOf_cons (b : Bucket ι) (bs : List (Bucket ι)) :
    elemsOf (b :: bs) = b.1 :: b.2 ++ elemsOf bs := rfl

@[simp] theorem elemsOf_append (bs bs' : List (Bucket ι)) :
    elemsOf (bs ++ bs') = elemsOf bs ++ elemsOf bs' := by
  simp [elemsOf]

variable {bs : List (Bucket ι)} {b : Bucket ι}

theorem top_mem_elemsOf (hb : b ∈ bs) : b.1 ∈ elemsOf bs :=
  mem_flatMap.2 ⟨b, hb, mem_cons_self⟩

theorem tops_sublist (bs : List (Bucket ι)) : (bs.map Prod.fst).Sublist (elemsOf bs) := by
  induction bs with
  | nil => exact .slnil
  | cons b bs ih => exact (sublist_append_of_sublist_right ih).cons_cons _

theorem not_mem_of_nodup {pre post : List (Bucket ι)} (hn : (elemsOf (pre ++ b :: post)).Nodup)
    (hx : x ∈ b.elems) :
    x ∉ elemsOf pre ∧ x ∉ elemsOf post := by
  rw [elemsOf_append] at hn
  obtain ⟨-, hb, hpre⟩ := nodup_append.1 hn
  obtain ⟨-, -, hpost⟩ := nodup_append.1 hb
  refine ⟨fun hmem => ?_, fun hmem => hpost x hx x hmem rfl⟩
  exact hpre x hmem x (mem_append_left _ hx) rfl

theorem not_mem_tail (hn : (elemsOf (b :: bs)).Nodup) (hx : x ∈ b.elems) :
    x ∉ elemsOf bs := fun hmem =>
  (nodup_append.1 hn).2.2 x hx x hmem rfl

variable [LinearOrder κ] (key : ι → κ)

/-- Insertion into buckets of which the first is not below the element. -/
def place (e : ι) : List (Bucket ι) → List (Bucket ι)
  | [] => [(e, [])]
  | b :: bs => if key e < key b.1 then (e, []) :: b :: bs else (e, b.elems) :: bs

def asBucket : List ι → List (Bucket ι)
  | [] => []
  | t :: r => [(t, r)]

/-- What is left of a bucket without an element. -/
def drop [DecidableEq ι] (e : ι) (b : Bucket ι) : List (Bucket ι) := asBucket (b.elems.erase e)

variable {key} in
theorem mem_elemsOf_place {e : ι} : x ∈ elemsOf (place key e bs) ↔ x = e ∨ x ∈ elemsOf bs := by
  cases bs with
  | nil => simp [place]
  | cons b bs =>
    rw [place]
    split
    · simp
    · simp [Bucket.elems]

omit [LinearOrder κ] in
theorem elemsOf_drop [DecidableEq ι] (e : ι) (b : Bucket ι) :
    elemsOf (drop e b) = b.elems.erase e := by
  rw [drop]
  cases b.elems.erase e with
  | nil => rfl
  | cons t r => simp [asBucket]

/-- The buckets are the elements of `l` by key, in increasing order. -/
structure Groups (l : List ι) (bs : List (Bucket ι)) : Prop where
  sorted : bs.Pairwise fun b b' => key b.1 < key b'.1
  bucket : ∀ b ∈ bs, b.1 :: b.2 = l.filter fun x => key x = key b.1
  cover : ∀ x ∈ l, ∃ b ∈ bs, key b.1 = key x

namespace Groups

variable {key} {key' : ι → κ} {l : List ι} {bs pre post : List (Bucket ι)} {b : Bucket ι} {e : ι}

theorem empty : Groups key [] [] := ⟨.nil, by simp, by simp⟩

theorem congr (h : Groups key l bs) (hk : ∀ x ∈ l, key' x = key x) : Groups key' l bs := by
  have htop : ∀ b ∈ bs, b.1 ∈ l := fun b hb => by
    have hmem : b.1 ∈ l.filter fun x => key x = key b.1 := h.bucket b hb ▸ mem_cons_self
    exact (mem_filter.1 hmem).1
  refine ⟨?_, fun b hb => ?_, fun x hx => ?_⟩
  · refine h.sorted.imp_of_mem fun hb hb' hlt => ?_
    rwa [hk _ (htop _ hb), hk _ (htop _ hb')]
  · rw [h.bucket b hb]
    refine filter_congr fun x hx => ?_
    rw [hk x hx, hk _ (htop b hb)]
  · obtain ⟨b, hb, he⟩ := h.cover x hx
    exact ⟨b, hb, by rw [hk _ (htop b hb), hk x hx, he]⟩

theorem key_eq (h : Groups key l bs) (hb : b ∈ bs) (he : e ∈ b.elems) : key e = key b.1 := by
  rw [Bucket.elems, h.bucket b hb] at he
  simpa using (mem_filter.1 he).2

theorem mem (h : Groups key l bs) : e ∈ elemsOf bs ↔ e ∈ l := by
  constructor
  · intro he
    obtain ⟨b, hb, hx⟩ := mem_flatMap.1 he
    rw [Bucket.elems, h.bucket b hb] at hx
    exact (mem_filter.1 hx).1
  · intro he
    obtain ⟨b, hb, hk⟩ := h.cover e he
    refine mem_flatMap.2 ⟨b, hb, ?_⟩
    rw [Bucket.elems, h.bucket b hb]
    exact mem_filter.2 ⟨he, by simp [hk]⟩

theorem nodup (h : Groups key l bs) (hl : l.Nodup) : (elemsOf bs).Nodup := by
  refine nodup_flatMap.2 ⟨fun b hb => ?_, h.sorted.imp_of_mem fun hb hb' hlt x hx hx' => ?_⟩
  · rw [Bucket.elems, h.bucket b hb]
    exact hl.filter _
  · rw [← h.key_eq hb hx, ← h.key_eq hb' hx'] at hlt
    exact lt_irrefl _ hlt

/-- The top of the first bucket is the least element, and of its equals the most recent. -/
theorem first (h : Groups key l (b :: bs)) :
    ∃ newer older, l = newer ++ b.1 :: older ∧ (∀ x ∈ newer, key b.1 < key x) ∧
      ∀ x ∈ older, key b.1 ≤ key x := by
  have hle : ∀ x ∈ l, key b.1 ≤ key x := by
    intro x hx
    obtain ⟨b', hb', hk⟩ := h.cover x hx
    rw [← hk]
    rcases mem_cons.1 hb' with rfl | hb'
    · exact le_rfl
    · exact ((pairwise_cons.1 h.sorted).1 b' hb').le
  obtain ⟨newer, older, hl, hnewer, -⟩ :=
    filter_eq_cons_iff.1 (h.bucket b mem_cons_self).symm
  refine ⟨newer, older, hl, fun x hx => ?_, fun x hx => ?_⟩
  · refine lt_of_le_of_ne (hle x (hl ▸ mem_append_left _ hx)) fun he => ?_
    exact hnewer x hx (by simp [he])
  · exact hle x (hl ▸ mem_append_right _ (mem_cons_of_mem _ hx))

section
variable (h : Groups key l (pre ++ b :: post)) {l' : List ι}
include h

theorem key_ne {c : Bucket ι} (hc : c ∈ pre ∨ c ∈ post) : key c.1 ≠ key b.1 := by
  obtain ⟨-, hpost, hpre⟩ := pairwise_append.1 h.sorted
  rcases hc with hc | hc
  · exact (hpre c hc b mem_cons_self).ne
  · exact ((pairwise_cons.1 hpost).1 c hc).ne'

variable (hother : ∀ k, k ≠ key b.1 → (l'.filter fun x => key x = k) = l.filter fun x => key x = k)
include hother

theorem bucket_ne {c : Bucket ι} (hc : c ∈ pre ∨ c ∈ post) :
    c.1 :: c.2 = l'.filter fun x => key x = key c.1 := by
  rw [hother _ (h.key_ne hc)]
  refine h.bucket c ?_
  simpa using hc.imp_right .inr

theorem cover_ne (hx : x ∈ l') (hk : key x ≠ key b.1) :
    ∃ c, (c ∈ pre ∨ c ∈ post) ∧ key c.1 = key x := by
  have hmem : x ∈ l'.filter fun y => key y = key x := mem_filter.2 ⟨hx, by simp⟩
  rw [hother _ hk] at hmem
  obtain ⟨c, hc, he⟩ := h.cover x (mem_filter.1 hmem).1
  refine ⟨c, ?_, he⟩
  rcases mem_append.1 hc with hc | hc
  · exact .inl hc
  · rcases mem_cons.1 hc with rfl | hc
    · exact absurd he.symm hk
    · exact .inr hc

theorem replace {b' : Bucket ι} (hkey : key b'.1 = key b.1)
    (hb' : b'.1 :: b'.2 = l'.filter fun x => key x = key b.1) :
    Groups key l' (pre ++ b' :: post) := by
  refine ⟨?_, fun c hc => ?_, fun x hx => ?_⟩
  · have hmap : ∀ bs : List (Bucket ι), (bs.Pairwise fun b b' => key b.1 < key b'.1) ↔
        (bs.map fun b => key b.1).Pairwise (· < ·) := fun bs => pairwise_map.symm
    have hsorted := h.sorted
    rw [hmap] at hsorted ⊢
    simpa [hkey] using hsorted
  · rcases mem_append.1 hc with hc | hc
    · exact h.bucket_ne hother (.inl hc)
    · rcases mem_cons.1 hc with rfl | hc
      · rw [hkey, hb']
      · exact h.bucket_ne hother (.inr hc)
  · by_cases hk : key x = key b.1
    · exact ⟨b', by simp, hkey.trans hk.symm⟩
    · obtain ⟨c, hc, he⟩ := h.cover_ne hother hx hk
      exact ⟨c, by simpa using hc.imp_right .inr, he⟩

theorem delete (hgone : (l'.filter fun x => key x = key b.1) = []) :
    Groups key l' (pre ++ post) := by
  refine ⟨?_, fun c hc => ?_, fun x hx => ?_⟩
  · exact h.sorted.sublist ((sublist_cons_self b post).append_left pre)
  · exact h.bucket_ne hother (mem_append.1 hc)
  · have hk : key x ≠ key b.1 := by
      intro hk
      have hmem : x ∈ l'.filter fun y => key y = key b.1 := mem_filter.2 ⟨hx, by simp [hk]⟩
      rw [hgone] at hmem
      exact not_mem_nil hmem
    obtain ⟨c, hc, he⟩ := h.cover_ne hother hx hk
    exact ⟨c, mem_append.2 hc, he⟩

end

theorem place (h : Groups key l (pre ++ post)) (hpre : ∀ b ∈ pre, key b.1 < key e)
    (hpost : ∀ b ∈ post.head?, key e ≤ key b.1) :
    Groups key (e :: l) (pre ++ place key e post) := by
  have hnew : (∀ b ∈ post, key e < key b.1) → Groups key (e :: l) (pre ++ (e, []) :: post) := by
    intro hpost
    have hne : ∀ b ∈ pre ++ post, key e ≠ key b.1 :=
      forall_mem_append.2 ⟨fun b hb => (hpre b hb).ne', fun b hb => (hpost b hb).ne⟩
    refine ⟨?_, fun b hb => ?_, fun x hx => ?_⟩
    · obtain ⟨hp, hq, hpq⟩ := pairwise_append.1 h.sorted
      refine pairwise_append.2 ⟨hp, pairwise_cons.2 ⟨hpost, hq⟩, fun b hb => ?_⟩
      exact forall_mem_cons.2 ⟨hpre b hb, hpq b hb⟩
    · have hold : b ∈ pre ++ post → b.1 :: b.2 = (e :: l).filter fun x => key x = key b.1 := by
        intro hb
        rw [filter_cons_of_neg (by simpa using hne b hb)]
        exact h.bucket b hb
      rcases mem_append.1 hb with hb | hb
      · exact hold (mem_append_left _ hb)
      · rcases mem_cons.1 hb with rfl | hb
        · rw [filter_cons_of_pos (by simp), filter_eq_nil_iff.2 fun x hx => ?_]
          obtain ⟨b, hb, hk⟩ := h.cover x hx
          simpa [← hk] using (hne b hb).symm
        · exact hold (mem_append_right _ hb)
    · rcases mem_cons.1 hx with rfl | hx
      · exact ⟨(x, []), by simp, rfl⟩
      · obtain ⟨b, hb, hk⟩ := h.cover x hx
        refine ⟨b, ?_, hk⟩
        simpa using (mem_append.1 hb).imp_right .inr
  cases post with
  | nil => exact hnew (by simp)
  | cons b post =>
    rw [Core.place]
    split
    · rename_i hlt
      have hsorted := (pairwise_append.1 h.sorted).2.1
      exact hnew (forall_mem_cons.2 ⟨hlt, fun c hc => hlt.trans ((pairwise_cons.1 hsorted).1 c hc)⟩)
    · rename_i hlt
      have hk : key e = key b.1 := le_antisymm (hpost b rfl) (not_lt.1 hlt)
      refine h.replace (fun k hne => ?_) hk ?_
      · rw [filter_cons_of_neg (by simpa [hk] using hne.symm)]
      · rw [filter_cons_of_pos (by simp [hk]), ← h.bucket b (by simp)]
        rfl

theorem place_head (h : Groups key l bs) (hbs : ∀ b ∈ bs.head?, key e ≤ key b.1) :
    Groups key (e :: l) (Core.place key e bs) := by
  have h' : Groups key l ([] ++ bs) := h
  exact h'.place (by simp) hbs

theorem drop [DecidableEq ι] (h : Groups key l (pre ++ b :: post)) (he : e ∈ b.elems) :
    Groups key (l.erase e) (pre ++ drop e b ++ post) := by
  have hb : b ∈ pre ++ b :: post := by simp
  have hk : key e = key b.1 := h.key_eq hb he
  have hsame : ((l.erase e).filter fun x => key x = key b.1) = b.elems.erase e := by
    rw [← erase_filter, ← h.bucket b hb]
    rfl
  have hother : ∀ k, k ≠ key b.1 →
      ((l.erase e).filter fun x => key x = k) = l.filter fun x => key x = k := by
    intro k hne
    rw [← erase_filter]
    simp [hk, hne.symm]
  rw [Core.drop]
  cases hrest : b.elems.erase e with
  | nil =>
    rw [asBucket, append_nil]
    exact h.delete hother (hsame.trans hrest)
  | cons t r =>
    rw [append_assoc]
    rw [hrest] at hsame
    refine h.replace hother ?_ hsame.symm
    have ht : t ∈ b.elems := mem_of_mem_erase (hrest ▸ mem_cons_self)
    exact h.key_eq hb ht

theorem drop_head [DecidableEq ι] (h : Groups key l (b :: bs)) (he : e ∈ b.elems) :
    Groups key (l.erase e) (Core.drop e b ++ bs) := by
  have h' : Groups key l ([] ++ b :: bs) := h
  exact h'.drop he

end Groups

end Gem5Cxl.Core
