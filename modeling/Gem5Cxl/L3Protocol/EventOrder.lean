import Mathlib.Data.Prod.Lex
import Gem5Cxl.Core.Buckets
import Gem5Cxl.Core.Chain
import Gem5Cxl.L2Machine.EventQueue

/-!
# The event queue is a priority queue

Its specification is the list of the scheduled events, the most recently
inserted first (`State.recent`): the next event is the first of those with the
least tick and priority. The queue holds the same events in linked bins
(`Rep`, `Groups`).

* `insertBefore_rep`, `removeItem_rep`: one bin is linked or unlinked.
* `insert_rep`, `remove_rep`, `serviceOne_rep`: an operation on a linked queue
  gives the linked queue of the specification.
* `priority_queue`: in every run of `insert`, `remove` and `serviceOne` from the
  empty queue there is no fault, the queue is well formed (`WellFormed`) and
  serves its least event (`ServesLeast`); and if no event is inserted before the
  current tick, time never goes back.
-/
namespace Gem5Cxl.L3.EventOrder

open Core L1 L2 Function EventQueue
open List hiding drop insert

variable {ι : Type} {x : ι} (q : EventQueue ι)

def key (q : EventQueue ι) (e : ι) : Lex (Nat × Int) := toLex (q.when e, q.priority e)

theorem lt_iff (l r : ι) : q.lt l r ↔ key q l < key q r := by
  rw [key, key, Prod.Lex.toLex_lt_toLex]
  rfl

theorem le_iff (l r : ι) : q.le l r ↔ key q l ≤ key q r := by
  rw [key, key, Prod.Lex.toLex_le_toLex]
  rfl

theorem eq_iff (l r : ι) : q.eq l r ↔ key q l = key q r := by
  simp [eq, key]

/-! ## Linked bins -/

/-- From `start` the bins `bs` are linked, and `stop` follows them. -/
structure Rep (q : EventQueue ι) (start : Option ι) (bs : List (Bucket ι)) (stop : Option ι) :
    Prop where
  spine : Chain q.nextBin start (bs.map Prod.fst) stop
  inner : ∀ b ∈ bs, Chain q.nextInBin (q.nextInBin b.1) b.2 none

namespace Rep

variable {q q' : EventQueue ι} {start stop : Option ι} {b : Bucket ι} {bs bs' : List (Bucket ι)}

theorem cons : Rep q start (b :: bs) stop ↔
    start = some b.1 ∧ Chain q.nextInBin (q.nextInBin b.1) b.2 none ∧
      Rep q (q.nextBin b.1) bs stop := by
  constructor
  · rintro ⟨⟨rfl, hspine⟩, hinner⟩
    exact ⟨rfl, hinner b mem_cons_self, hspine, fun c hc => hinner c (mem_cons_of_mem _ hc)⟩
  · rintro ⟨rfl, htop, hrest⟩
    exact ⟨⟨rfl, hrest.spine⟩, forall_mem_cons.2 ⟨htop, hrest.inner⟩⟩

theorem append : Rep q start (bs ++ bs') stop ↔ ∃ mid, Rep q start bs mid ∧ Rep q mid bs' stop := by
  constructor
  · rintro ⟨hspine, hinner⟩
    rw [map_append, chain_append] at hspine
    obtain ⟨mid, h, h'⟩ := hspine
    exact ⟨mid, ⟨h, fun c hc => hinner c (mem_append_left _ hc)⟩,
      h', fun c hc => hinner c (mem_append_right _ hc)⟩
  · rintro ⟨mid, h, h'⟩
    refine ⟨?_, forall_mem_append.2 ⟨h.inner, h'.inner⟩⟩
    rw [map_append, chain_append]
    exact ⟨mid, h.spine, h'.spine⟩

theorem congr (h : Rep q start bs stop) (hbin : ∀ b ∈ bs, q'.nextBin b.1 = q.nextBin b.1)
    (hin : ∀ x ∈ elemsOf bs, q'.nextInBin x = q.nextInBin x) : Rep q' start bs stop := by
  refine ⟨h.spine.congr fun x hx => ?_, fun b hb => ?_⟩
  · obtain ⟨b, hb, rfl⟩ := mem_map.1 hx
    exact hbin b hb
  · have hsub : ∀ x ∈ b.elems, x ∈ elemsOf bs := fun x hx => mem_flatMap.2 ⟨b, hb, hx⟩
    rw [hin _ (hsub _ mem_cons_self)]
    exact (h.inner b hb).congr fun x hx => hin x (hsub x (mem_cons_of_mem _ hx))

theorem start_eq (h : Rep q start bs none) : start = bs.head?.map Prod.fst := by
  cases bs with
  | nil => exact h.spine
  | cons b bs => exact h.spine.1

end Rep

def Relinked (q q' : EventQueue ι) : Prop :=
  ∃ head nextBin nextInBin,
    q' = { q with head := head, nextBin := nextBin, nextInBin := nextInBin }

theorem Relinked.setHead {q q' : EventQueue ι} (h : Relinked q q') (head : Option ι) :
    Relinked q { q' with head := head } := by
  obtain ⟨_, _, _, rfl⟩ := h
  exact ⟨_, _, _, rfl⟩

theorem Relinked.setNextBin {q q' : EventQueue ι} (h : Relinked q q') (nextBin : ι → Option ι) :
    Relinked q { q' with nextBin := nextBin } := by
  obtain ⟨_, _, _, rfl⟩ := h
  exact ⟨_, _, _, rfl⟩

section

variable [DecidableEq ι] {q : EventQueue ι} {start stop : Option ι} {e : ι}
  {bs post : List (Bucket ι)} {l : List ι} {c : Bucket ι} {r : List ι} {fuel : Nat} {top : Option ι}
  (curr : Option ι)

/-! ## Insertion -/

theorem insertBefore_relinked : Relinked q (q.insertBefore e curr) := by
  cases curr with
  | none => exact ⟨_, _, _, rfl⟩
  | some c =>
    rw [insertBefore]
    split
    · exact ⟨_, _, _, rfl⟩
    · exact ⟨_, _, _, rfl⟩

theorem insertBefore_head : (q.insertBefore e curr).head = q.head := by
  cases curr with
  | none => rfl
  | some c =>
    rw [insertBefore]
    split <;> rfl

theorem insertBefore_of_ne (hx : x ≠ e) (curr : Option ι) :
    (q.insertBefore e curr).nextBin x = q.nextBin x ∧
      (q.insertBefore e curr).nextInBin x = q.nextInBin x := by
  cases curr with
  | none => simp [insertBefore, hx]
  | some c =>
    rw [insertBefore]
    split <;> simp [hx]

theorem Rep.insertBefore_frame (h : Rep q start bs stop) (he : e ∉ elemsOf bs) (curr : Option ι) :
    Rep (q.insertBefore e curr) start bs stop := by
  have hne : ∀ x ∈ elemsOf bs, x ≠ e := fun x hx hxe => he (hxe ▸ hx)
  exact h.congr (fun b hb => (insertBefore_of_ne (hne _ (top_mem_elemsOf hb)) curr).1)
    fun x hx => (insertBefore_of_ne (hne x hx) curr).2

theorem insertBefore_rep (h : Rep q start post none) (he : e ∉ elemsOf post) :
    Rep (q.insertBefore e start) (some e) (place (key q) e post) none := by
  have hframe := h.insertBefore_frame he start
  cases post with
  | nil =>
    cases h.start_eq
    rw [place, Rep.cons]
    simpa [insertBefore] using hframe
  | cons b post =>
    cases h.start_eq
    rw [head?_cons, Option.map_some] at hframe ⊢
    by_cases hlt : q.lt e b.1
    · rw [place, if_pos ((lt_iff ..).1 hlt), Rep.cons]
      refine ⟨rfl, ?_, ?_⟩
      · simp [insertBefore, hlt]
      · have hnext : (q.insertBefore e (some b.1)).nextBin e = some b.1 := by
          simp [insertBefore, hlt]
        rwa [hnext]
    · rw [place, if_neg (mt (lt_iff ..).2 hlt), Rep.cons]
      obtain ⟨-, htop, hrest⟩ := Rep.cons.1 hframe
      have hb : b.1 ≠ e := fun hbe => he (hbe ▸ top_mem_elemsOf mem_cons_self)
      refine ⟨rfl, ?_, ?_⟩
      · have hnext : (q.insertBefore e (some b.1)).nextInBin e = some b.1 := by
          simp [insertBefore, hlt]
        exact ⟨hnext, htop⟩
      · have hnext : (q.insertBefore e (some b.1)).nextBin e = q.nextBin b.1 := by
          simp [insertBefore, hlt]
        rwa [(insertBefore_of_ne hb _).1, ← hnext] at hrest

omit [DecidableEq ι] in
/-- The loop over the bins stops before the first that is not below the event. -/
theorem findBin_ok {p : ι} (h : Rep q (q.nextBin p) bs none) (hfuel : bs.length ≤ fuel)
    (hp : key q p < key q e) :
    ∃ pre b post, (p, r) :: bs = pre ++ b :: post ∧
      q.findBin e fuel p (q.nextBin p) = .ok (b.1, post.head?.map Prod.fst) ∧
      (∀ c ∈ pre ++ [b], key q c.1 < key q e) ∧ ∀ c ∈ post.head?, key q e ≤ key q c.1 := by
  induction bs generalizing fuel p r with
  | nil =>
    have hnone : q.nextBin p = none := h.spine
    refine ⟨[], (p, r), [], rfl, ?_, by simpa using hp, by simp⟩
    rw [hnone]
    cases fuel <;> rfl
  | cons c bs ih =>
    obtain ⟨hc, -, hrest⟩ := Rep.cons.1 h
    cases fuel with
    | zero => simp at hfuel
    | succ fuel =>
      rw [hc, findBin]
      by_cases hlt : q.lt c.1 e
      · obtain ⟨pre, b, post, hsplit, hrun, hpre, hpost⟩ :=
          ih hrest (by simpa using hfuel) ((lt_iff ..).1 hlt)
        refine ⟨(p, r) :: pre, b, post, ?_, ?_, ?_, hpost⟩
        · rw [cons_append, ← hsplit]
        · rw [if_pos hlt, hrun]
        · simpa using ⟨hp, by simpa using hpre⟩
      · refine ⟨[], (p, r), c :: bs, rfl, ?_, by simpa using hp, ?_⟩
        · rw [if_neg hlt]
          rfl
        · simpa using not_lt.1 (mt (lt_iff ..).2 hlt)

variable {b : Bucket ι} {pre : List (Bucket ι)} {q' : EventQueue ι}

theorem Rep.link {next : Option ι}
    (hpre : Rep q start pre (some b.1)) (hb : Chain q.nextInBin (q.nextInBin b.1) b.2 none)
    (hpost : Rep q next post stop) (hbpre : b.1 ∉ elemsOf pre) (hbpost : b.1 ∉ elemsOf post) :
    Rep { q with nextBin := update q.nextBin b.1 next } start (pre ++ b :: post) stop := by
  have hne : ∀ {bs : List (Bucket ι)}, b.1 ∉ elemsOf bs → ∀ c ∈ bs,
      update q.nextBin b.1 next c.1 = q.nextBin c.1 := by
    intro bs hbs c hc
    refine update_of_ne (fun hcb => hbs ?_) _ _
    exact hcb ▸ top_mem_elemsOf hc
  refine Rep.append.2 ⟨some b.1, hpre.congr (hne hbpre) fun _ _ => rfl, Rep.cons.2 ⟨rfl, hb, ?_⟩⟩
  simp only [update_self]
  exact hpost.congr (hne hbpost) fun _ _ => rfl

omit [DecidableEq ι] in
theorem length_le_card [Fintype ι] (hn : (elemsOf bs).Nodup) : bs.length ≤ Fintype.card ι := by
  have hnodup := hn.sublist (tops_sublist bs)
  simpa using hnodup.length_le_card

theorem insert_head (h : Rep q q.head bs none) (he : e ∉ elemsOf bs) :
    Relinked q { q.insertBefore e q.head with head := some e } ∧
      Rep { q.insertBefore e q.head with head := some e } (some e) (place (key q) e bs) none := by
  have hrep := insertBefore_rep h he
  exact ⟨(insertBefore_relinked _).setHead _, hrep.spine, hrep.inner⟩

theorem insert_after (h : Rep q q.head (pre ++ b :: post) none)
    (he : e ∉ elemsOf (pre ++ b :: post)) (hn : (elemsOf (pre ++ b :: post)).Nodup)
    (hq' : q' = q.insertBefore e (post.head?.map Prod.fst)) :
    Relinked q { q' with nextBin := update q'.nextBin b.1 (some e) } ∧
      Rep { q' with nextBin := update q'.nextBin b.1 (some e) } q'.head
        (pre ++ b :: place (key q) e post) none := by
  subst hq'
  have hepre : e ∉ elemsOf pre := fun hmem => he (by simp [hmem])
  have heb : e ∉ elemsOf [b] := fun hmem => he (by
    simp at hmem ⊢
    tauto)
  have hepost : e ∉ elemsOf post := fun hmem => he (by simp [hmem])
  obtain ⟨hbpre, hbpost⟩ := not_mem_of_nodup hn mem_cons_self
  obtain ⟨mid, hpre, hb⟩ := Rep.append.1 h
  obtain ⟨rfl, hbin, hpost⟩ := Rep.cons.1 hb
  have hone : Rep q (some b.1) [b] (q.nextBin b.1) := Rep.cons.2 ⟨rfl, hbin, rfl, by simp⟩
  refine ⟨(insertBefore_relinked _).setNextBin _,
    .link ?_ ((hone.insertBefore_frame heb _).inner b mem_cons_self) ?_ hbpre ?_⟩
  · rw [insertBefore_head]
    exact hpre.insertBefore_frame hepre _
  · have := insertBefore_rep hpost hepost
    rwa [hpost.start_eq] at this
  · rw [mem_elemsOf_place, not_or]
    refine ⟨fun hbe => heb ?_, hbpost⟩
    simp [hbe]

theorem insert_rep [Fintype ι] (h : Rep q q.head bs none) (hg : Groups (key q) l bs) (hl : l.Nodup)
    (he : e ∉ l) : ∃ q' bs', q.insert e = .ok q' ∧ Relinked q q' ∧ Rep q' q'.head bs' none ∧
      Groups (key q) (e :: l) bs' := by
  have hebs : e ∉ elemsOf bs := mt hg.mem.1 he
  have hn := hg.nodup hl
  obtain ⟨hlink, hrep⟩ := insert_head h hebs
  cases bs with
  | nil =>
    have hhead : q.head = none := h.spine
    refine ⟨_, _, ?_, hlink, hrep, hg.place_head (by simp)⟩
    rw [EventQueue.insert, hhead]
  | cons b bs =>
    obtain ⟨hhead, -, hrest⟩ := Rep.cons.1 h
    by_cases hle : q.le e b.1
    · refine ⟨_, _, ?_, hlink, hrep, hg.place_head ?_⟩
      · rw [EventQueue.insert, hhead]
        exact if_pos hle
      · simpa using (le_iff ..).1 hle
    · have hlt : key q b.1 < key q e := not_le.1 (mt (le_iff ..).2 hle)
      have hfuel : bs.length ≤ Fintype.card ι := (Nat.le_succ _).trans (length_le_card hn)
      obtain ⟨pre, c, post, hsplit, hrun, hpre, hpost⟩ := findBin_ok hrest hfuel hlt
      rw [hsplit] at h hg hn hebs
      obtain ⟨hlink', hrep'⟩ := insert_after h hebs hn rfl
      refine ⟨_, pre ++ c :: place (key q) e post, ?_, hlink', hrep', ?_⟩
      · rw [EventQueue.insert, hhead]
        simp only [if_neg hle, hrun, ok_bind]
      · have hg' : Groups (key q) l ((pre ++ [c]) ++ post) := by simpa using hg
        simpa using hg'.place hpre hpost

/-! ## Removal -/

/-- The loop inside a bin stops at the event before the one looked for. -/
theorem findInBin_ok {c : ι} {r' : List ι}
    (h : Chain q.nextInBin (q.nextInBin c) (r ++ e :: r') none) (hn : (c :: (r ++ e :: r')).Nodup)
    (hfuel : r.length < fuel) :
    ∃ p ∈ c :: r, q.findInBin e fuel c (q.nextInBin c) = .ok p ∧
      Chain (update q.nextInBin p (q.nextInBin e))
        (update q.nextInBin p (q.nextInBin e) c) (r ++ r') none := by
  induction fuel generalizing c r with
  | zero => simp at hfuel
  | succ fuel ih =>
    obtain _ | ⟨x, r⟩ := r
    · obtain ⟨hnext, hrest⟩ := h
      refine ⟨c, mem_cons_self, ?_, ?_⟩
      · rw [hnext, findInBin, if_pos rfl]
      · rw [update_self]
        exact hrest.update fun hc => (nodup_cons.1 hn).1 (by simp [hc])
    · obtain ⟨hnext, hrest⟩ := h
      obtain ⟨hc, hn'⟩ := nodup_cons.1 hn
      obtain ⟨p, hp, hrun, hchain⟩ := ih hrest hn' (by simpa using hfuel)
      have hex : e ≠ x := fun hex => (nodup_cons.1 hn').1 (by simp [hex])
      have hpc : c ≠ p := fun hcp => hc (by
        rw [hcp]
        exact mem_append_left _ hp)
      refine ⟨p, mem_cons_of_mem _ hp, ?_, ?_⟩
      · rw [hnext, findInBin, if_neg hex, hrun]
      · rw [update_of_ne hpc]
        exact ⟨hnext, hchain⟩

/-- `e` has been taken out of the bin `b`, and `top` is what is left of it or what follows. -/
structure Unlinked (q : EventQueue ι) (e : ι) (b : Bucket ι) (post : List (Bucket ι))
    (stop : Option ι) (q' : EventQueue ι) (top : Option ι) : Prop where
  relinked : Relinked q q'
  head : q'.head = q.head
  rep : Rep q' top (drop e b ++ post) stop
  frame : ∀ x, x ∉ b.elems → q'.nextBin x = q.nextBin x ∧ q'.nextInBin x = q.nextInBin x

section

variable (h : Rep q start (b :: post) stop) (hn : (elemsOf (b :: post)).Nodup)
include h hn

theorem removeItem_top [Fintype ι] :
    ∃ q' top, q.removeItem b.1 b.1 = .ok (q', top) ∧ Unlinked q b.1 b post stop q' top := by
  obtain ⟨t, r⟩ := b
  obtain ⟨-, hin, hpost⟩ := Rep.cons.1 h
  have hdrop : drop t (t, r) = asBucket r := by
    rw [drop, Bucket.elems, erase_cons_head]
  rw [removeItem, if_pos rfl]
  cases r with
  | nil =>
    have hnone : q.nextInBin t = none := hin
    rw [hnone]
    refine ⟨q, _, rfl, ⟨_, _, _, rfl⟩, rfl, ?_, fun _ _ => ⟨rfl, rfl⟩⟩
    rw [hdrop]
    exact hpost
  | cons n r =>
    obtain ⟨hnext, hrest⟩ := hin
    rw [hnext]
    refine ⟨_, _, rfl, ⟨_, _, _, rfl⟩, rfl, ?_, fun x hx => ⟨?_, rfl⟩⟩
    · rw [hdrop]
      refine Rep.cons.2 ⟨rfl, hrest, ?_⟩
      simp only [update_self]
      refine hpost.congr (fun c hc => update_of_ne (fun hcn => ?_) _ _) fun _ _ => rfl
      have hnot := not_mem_tail (x := n) hn (by simp [Bucket.elems])
      exact hnot (hcn ▸ top_mem_elemsOf hc)
    · refine update_of_ne (fun hxn => hx ?_) _ _
      simp [Bucket.elems, hxn]

theorem removeItem_inner [Fintype ι] (he : e ∈ b.2) :
    ∃ q' top, q.removeItem e b.1 = .ok (q', top) ∧ Unlinked q e b post stop q' top := by
  obtain ⟨t, r⟩ := b
  obtain ⟨-, hin, hpost⟩ := Rep.cons.1 h
  obtain ⟨r₁, r₂, rfl⟩ := append_of_mem he
  have hbn : (t :: (r₁ ++ e :: r₂)).Nodup := (nodup_append.1 hn).1
  have hne : e ≠ t := fun het => (nodup_cons.1 hbn).1 (by simp [het])
  have her : e ∉ r₁ := fun hmem =>
    (nodup_append.1 (nodup_cons.1 hbn).2).2.2 e hmem e mem_cons_self rfl
  have hfuel : r₁.length < Fintype.card ι := by
    have := hbn.length_le_card
    simp only [length_cons, length_append] at this
    omega
  obtain ⟨p, hp, hrun, hchain⟩ := findInBin_ok hin hbn hfuel
  have hdrop : drop e (t, r₁ ++ e :: r₂) = [(t, r₁ ++ r₂)] := by
    rw [drop, Bucket.elems, erase_cons_tail (by simpa using hne.symm),
      erase_append_right _ her, erase_cons_head, asBucket]
  have hpb : p ∈ Bucket.elems (t, r₁ ++ e :: r₂) := mem_append_left (e :: r₂) hp
  rw [removeItem, if_neg hne, hrun]
  refine ⟨_, some t, rfl, ⟨_, _, _, rfl⟩, rfl, ?_, fun x hx => ⟨rfl, ?_⟩⟩
  · rw [hdrop]
    refine Rep.cons.2 ⟨rfl, hchain, hpost.congr (fun _ _ => rfl) fun x hx => ?_⟩
    refine update_of_ne (fun hxp => ?_) _ _
    exact not_mem_tail hn hpb (hxp ▸ hx)
  · exact update_of_ne (fun hxp : x = p => hx (hxp ▸ hpb)) _ _

theorem removeItem_rep [Fintype ι] (he : e ∈ b.elems) :
    ∃ q' top, q.removeItem e b.1 = .ok (q', top) ∧ Unlinked q e b post stop q' top := by
  rcases mem_cons.1 he with rfl | he
  · exact removeItem_top h hn
  · exact removeItem_inner h hn he

end

/-- A bin that is not the first: the bin before it is linked to what is left. -/
theorem Unlinked.link (h : Rep q q.head (pre ++ b :: c :: post) none)
    (hn : (elemsOf (pre ++ b :: c :: post)).Nodup) (hu : Unlinked q e c post none q' top) :
    Rep { q' with nextBin := update q'.nextBin b.1 top } q'.head
      (pre ++ b :: (drop e c ++ post)) none := by
  obtain ⟨hbpre, hbpost⟩ := not_mem_of_nodup hn mem_cons_self
  obtain ⟨mid, hpre, hb⟩ := Rep.append.1 h
  obtain ⟨rfl, hbin, -⟩ := Rep.cons.1 hb
  have hone : Rep q (some b.1) [b] (q.nextBin b.1) := Rep.cons.2 ⟨rfl, hbin, rfl, by simp⟩
  -- what is outside the bin `c` keeps its links
  have hframe : ∀ {bs s s'}, Rep q s bs s' → (∀ x ∈ elemsOf bs, x ∉ c.elems) → Rep q' s bs s' :=
    fun hbs hout => hbs.congr (fun d hd => (hu.frame _ (hout _ (top_mem_elemsOf hd))).1)
      fun x hx => (hu.frame x (hout x hx)).2
  have hcout : ∀ x ∈ c.elems, x ∉ elemsOf (pre ++ [b]) := fun x hx => by
    have hn' : (elemsOf ((pre ++ [b]) ++ c :: post)).Nodup := by simpa using hn
    exact (not_mem_of_nodup hn' hx).1
  refine .link ?_ ((hframe hone fun x hx hxc => hcout x hxc ?_).inner b mem_cons_self)
    hu.rep hbpre fun hmem => ?_
  · rw [hu.head]
    exact hframe hpre fun x hx hxc => hcout x hxc (by simp [hx])
  · rw [elemsOf_append]
    exact mem_append_right _ hx
  · rw [elemsOf_append, elemsOf_drop] at hmem
    rcases mem_append.1 hmem with hmem | hmem
    · exact hbpost (mem_append_left _ (mem_of_mem_erase hmem))
    · exact hbpost (mem_append_right _ hmem)

omit [DecidableEq ι] in
theorem post_head {d : Bucket ι} (hg : Groups (key q) l (pre ++ d :: post))
    (hc : c ∈ pre ++ d :: post)
    (hck : key q e = key q c.1) (hpre : ∀ b ∈ pre ++ [d], key q b.1 < key q e)
    (hpost : ∀ b ∈ post.head?, key q e ≤ key q b.1) : ∃ post', post = c :: post' := by
  have hcpost : c ∈ post := by
    rw [append_cons] at hc
    rcases mem_append.1 hc with hc | hc
    · exact absurd (hpre c hc) (by simp [hck])
    · exact hc
  cases post with
  | nil => exact absurd hcpost not_mem_nil
  | cons f post' =>
    rcases mem_cons.1 hcpost with rfl | hcf
    · exact ⟨post', rfl⟩
    · have hsorted := (pairwise_append.1 hg.sorted).2.1
      have hlt := (pairwise_cons.1 (pairwise_cons.1 hsorted).2).1 c hcf
      exact absurd (hck ▸ hpost f rfl) (not_le.2 hlt)

theorem remove_rep [Fintype ι] (h : Rep q q.head bs none) (hg : Groups (key q) l bs) (hl : l.Nodup)
    (he : e ∈ l) (hq : q.queue e = true) :
    ∃ q' bs', q.remove e = .ok q' ∧ Relinked q q' ∧ Rep q' q'.head bs' none ∧
      Groups (key q) (l.erase e) bs' := by
  have hn := hg.nodup hl
  obtain ⟨c, hc, hce⟩ := mem_flatMap.1 (hg.mem.2 he)
  have hck : key q e = key q c.1 := hg.key_eq hc hce
  cases bs with
  | nil => exact absurd hc not_mem_nil
  | cons b bs =>
    obtain ⟨hhead, -, hrest⟩ := Rep.cons.1 h
    rw [EventQueue.remove, hhead]
    simp only [hq, Bool.not_true, Bool.false_eq_true, if_false]
    by_cases heq : q.eq b.1 e
    · have hcb : c = b := by
        rcases mem_cons.1 hc with hcb | hcbs
        · exact hcb
        · have hlt := (pairwise_cons.1 hg.sorted).1 c hcbs
          exact absurd (((eq_iff ..).1 heq).trans hck) hlt.ne
      subst hcb
      obtain ⟨q', top, hrun, hu⟩ := removeItem_rep h hn hce
      refine ⟨{ q' with head := top }, _, ?_, hu.relinked.setHead _,
        { hu.rep with }, hg.drop_head hce⟩
      rw [if_pos heq, hrun]
      rfl
    · have hcbs : c ∈ bs := by
        rcases mem_cons.1 hc with rfl | hcbs
        · exact absurd ((eq_iff ..).2 hck.symm) heq
        · exact hcbs
      have hlt : key q b.1 < key q e := hck ▸ (pairwise_cons.1 hg.sorted).1 c hcbs
      have hfuel : bs.length ≤ Fintype.card ι := (Nat.le_succ _).trans (length_le_card hn)
      obtain ⟨pre, d, post, hsplit, hfind, hpre, hpost⟩ := findBin_ok hrest hfuel hlt
      rw [hsplit] at h hg hn hc
      obtain ⟨post', rfl⟩ := post_head hg hc hck hpre hpost
      have h' : Rep q q.head ((pre ++ [d]) ++ c :: post') none := by simpa using h
      obtain ⟨_, -, hcRep⟩ := Rep.append.1 h'
      have hcn : (elemsOf (c :: post')).Nodup := by
        rw [append_cons, elemsOf_append] at hn
        exact (nodup_append.1 hn).2.1
      obtain ⟨q', top, hrun, hu⟩ := removeItem_rep hcRep hcn hce
      rw [if_neg heq, hfind]
      simp only [head?_cons, Option.map_some, ok_bind, (eq_iff q c.1 e).2 hck.symm,
        not_true_eq_false, if_false, hrun]
      refine ⟨_, _, rfl, hu.relinked.setNextBin _, hu.link h hn, ?_⟩
      have hg' : Groups (key q) l ((pre ++ [d]) ++ c :: post') := by simpa using hg
      simpa using hg'.drop hce

/-! ## Service -/

/-- `serviceOne` unlinks the head as `removeItem` does. -/
theorem serviceOne_eq [Fintype ι] (hhead : q.head = some e)
    (hrun : q.removeItem e e = .ok (q', top)) :
    q.serviceOne = .ok
      ({ q' with
        head := top
        scheduled := update q.scheduled e false
        squashed := if q.squashed e then update q.squashed e false else q.squashed
        curTick := if q.squashed e then q.curTick else q.when e }, e) := by
  rw [removeItem, if_pos rfl] at hrun
  rw [EventQueue.serviceOne, hhead]
  cases hnext : q.nextInBin e with
  | none | some n =>
    rw [hnext] at hrun
    cases hrun
    cases hsq : q.squashed e <;> simp [hnext, hsq]

/-- What `serviceOne` does to the event it takes. -/
structure Served (q : EventQueue ι) (e : ι) (q' : EventQueue ι) : Prop where
  when_eq : q'.when = q.when
  priority_eq : q'.priority = q.priority
  queue_eq : q'.queue = q.queue
  scheduled_eq : q'.scheduled = Function.update q.scheduled e false
  curTick_eq : q'.curTick = if q.squashed e then q.curTick else q.when e

theorem serviceOne_rep [Fintype ι] (h : Rep q q.head (b :: bs) none)
    (hn : (elemsOf (b :: bs)).Nodup) :
    ∃ q', q.serviceOne = .ok (q', b.1) ∧ Served q b.1 q' ∧
      Rep q' q'.head (drop b.1 b ++ bs) none := by
  obtain ⟨q', top, hrun, hu⟩ := removeItem_top h hn
  refine ⟨_, serviceOne_eq (Rep.cons.1 h).1 hrun, ?_, hu.rep.spine, hu.rep.inner⟩
  obtain ⟨_, _, _, rfl⟩ := hu.relinked
  exact ⟨rfl, rfl, rfl, rfl, rfl⟩

end

/-! ## Runs -/

structure State (ι : Type) where
  queue : EventQueue ι
  /-- The scheduled events, the most recently inserted first. -/
  recent : List ι

inductive Op (ι : Type)
  | insert (event : ι) (when : Nat)
  | remove (event : ι)
  | serviceOne
  | squash (event : ι)
deriving DecidableEq, Repr

section

variable [DecidableEq ι] [Fintype ι] {t : Nat} {op : Op ι}

def step (s : State ι) : Op ι → Except Fault (State ι)
  | .insert event when => do
    let q ← s.queue.insertAt event when
    .ok ⟨q, event :: s.recent⟩
  | .remove event => do
    let q ← s.queue.removeEvent event
    .ok ⟨q, s.recent.erase event⟩
  | .serviceOne => do
    let (q, event) ← s.queue.serviceOne
    .ok ⟨q, s.recent.erase event⟩
  | .squash event => .ok { s with queue := s.queue.squash event }

/-- An event is scheduled once, what is removed is scheduled, and an empty queue is not served. -/
def enabled (s : State ι) : Op ι → Prop
  | .insert event _ => s.queue.scheduled event = false
  | .remove event => s.queue.scheduled event = true
  | .serviceOne => s.queue.head ≠ none
  | .squash _ => True

/-- Runs start with an empty queue; the events are arbitrary. -/
def machine (ι : Type) [DecidableEq ι] [Fintype ι] : Machine (State ι) (Op ι) Fault where
  init s := s.queue.head = none ∧ (∀ e, s.queue.scheduled e = false) ∧ s.recent = []
  enabled := enabled
  step := step

/-- The list reachable from `head`, as it should be. -/
structure WellFormed (q : EventQueue ι) (bins : List (Bucket ι)) : Prop where
  nextBin : Chain q.nextBin q.head (bins.map Prod.fst) none
  nextInBin : ∀ b ∈ bins, Chain q.nextInBin (q.nextInBin b.1) b.2 none
  nodup : (elemsOf bins).Nodup
  scheduled : ∀ e, e ∈ elemsOf bins ↔ q.scheduled e = true
  increasing : bins.Pairwise fun b b' => q.lt b.1 b'.1
  equal : ∀ b ∈ bins, ∀ e ∈ b.2, q.eq e b.1

/-- `serviceOne` takes an event than which none is less, nor equal and more recent. -/
def ServesLeast (s : State ι) : Prop :=
  s.recent ≠ [] → ∃ q' e newer older, s.queue.serviceOne = .ok (q', e) ∧
    q'.scheduled = Function.update s.queue.scheduled e false ∧ s.recent = newer ++ e :: older ∧
    (∀ x ∈ newer, s.queue.lt e x) ∧ ∀ x ∈ older, ¬ s.queue.lt x e

/-- No event is inserted before the current tick. -/
def Timely (s : State ι) : Op ι → Prop
  | .insert _ when => s.queue.curTick ≤ when
  | _ => True

structure Inv (s : State ι) : Prop where
  nodup : s.recent.Nodup
  scheduled : ∀ e, e ∈ s.recent ↔ s.queue.scheduled e = true
  onQueue : ∀ e ∈ s.recent, s.queue.queue e = true
  linked : ∃ bs, Rep s.queue s.queue.head bs none ∧ Groups (key s.queue) s.recent bs

variable {s : State ι}

variable {e : ι}

theorem Inv.insert (hi : Inv s) (he : s.queue.scheduled e = false) :
    ∃ q', s.queue.insertAt e t = .ok q' ∧ q'.curTick = s.queue.curTick ∧
      q'.when = update s.queue.when e t ∧ Inv ⟨q', e :: s.recent⟩ := by
  obtain ⟨bs, hrep, hg⟩ := hi.linked
  have hel : e ∉ s.recent := fun hmem => by
    rw [hi.scheduled, he] at hmem
    exact nomatch hmem
  have hne : ∀ x ∈ s.recent, x ≠ e := fun x hx hxe => hel (hxe ▸ hx)
  -- the new tick of `e` changes the order of no event in the queue
  have hg' : Groups (key (s.queue.setWhen e t)) s.recent bs := by
    refine hg.congr fun x hx => ?_
    simp only [key, setWhen, update_of_ne (hne x hx)]
  obtain ⟨q', bs', hrun, hlink, hrep', hg''⟩ :=
    insert_rep (q := s.queue.setWhen e t) { hrep with } hg' hi.nodup hel
  obtain ⟨_, _, _, rfl⟩ := hlink
  refine ⟨_, by rw [insertAt, hrun]; rfl, by rfl, by rfl, ?_⟩
  constructor
  · exact nodup_cons.2 ⟨hel, hi.nodup⟩
  · intro x
    by_cases hx : x = e
    · simp [hx]
    · simp [hx, hi.scheduled, setWhen]
  · intro x hx
    rcases mem_cons.1 hx with rfl | hx
    · simp [setWhen]
    · simp [setWhen, hne x hx, hi.onQueue x hx]
  · exact ⟨bs', { hrep' with }, hg''⟩

omit [Fintype ι] in
theorem mem_erase_iff {sch : ι → Bool} {l : List ι} (hl : l.Nodup)
    (h : ∀ y, y ∈ l ↔ sch y = true) : x ∈ l.erase e ↔ update sch e false x = true := by
  rw [hl.mem_erase_iff, h]
  by_cases hx : x = e
  · simp [hx]
  · simp [hx]

theorem Inv.remove (hi : Inv s) (he : s.queue.scheduled e = true) :
    ∃ q', s.queue.removeEvent e = .ok q' ∧ q'.curTick = s.queue.curTick ∧
      q'.when = s.queue.when ∧ Inv ⟨q', s.recent.erase e⟩ := by
  obtain ⟨bs, hrep, hg⟩ := hi.linked
  have hel : e ∈ s.recent := (hi.scheduled e).2 he
  obtain ⟨q', bs', hrun, hlink, hrep', hg'⟩ :=
    remove_rep hrep hg hi.nodup hel (hi.onQueue e hel)
  obtain ⟨_, _, _, rfl⟩ := hlink
  refine ⟨_, by rw [removeEvent, hrun]; rfl, by rfl, by rfl, ?_⟩
  exact {
    nodup := hi.nodup.erase e
    scheduled := fun x => mem_erase_iff hi.nodup hi.scheduled
    onQueue := fun x hx => hi.onQueue x (mem_of_mem_erase hx)
    linked := ⟨bs', { hrep' with }, hg'⟩ }

theorem Inv.serviceOne (hi : Inv s) (hne : s.queue.head ≠ none) :
    ∃ q' e newer older, s.queue.serviceOne = .ok (q', e) ∧ Served s.queue e q' ∧
      s.recent = newer ++ e :: older ∧ (∀ x ∈ newer, key s.queue e < key s.queue x) ∧
      (∀ x ∈ older, key s.queue e ≤ key s.queue x) ∧ Inv ⟨q', s.recent.erase e⟩ := by
  obtain ⟨bs, hrep, hg⟩ := hi.linked
  cases bs with
  | nil => exact absurd hrep.spine hne
  | cons b bs =>
    obtain ⟨q', hrun, hserved, hrep'⟩ := serviceOne_rep hrep (hg.nodup hi.nodup)
    obtain ⟨newer, older, hl, hnewer, holder⟩ := hg.first
    refine ⟨q', b.1, newer, older, hrun, hserved, hl, hnewer, holder, ?_⟩
    have hkey : key q' = key s.queue := by
      funext x
      simp only [key, hserved.when_eq, hserved.priority_eq]
    exact {
      nodup := hi.nodup.erase _
      scheduled := fun x => by
        simp only [hserved.scheduled_eq]
        exact mem_erase_iff hi.nodup hi.scheduled
      onQueue := fun x hx => by
        simp only [hserved.queue_eq]
        exact hi.onQueue x (mem_of_mem_erase hx)
      linked := ⟨_, hrep', by
        simp only [hkey]
        exact hg.drop_head mem_cons_self⟩ }

omit [Fintype ι] in
theorem Inv.squash (hi : Inv s) (e : ι) : Inv { s with queue := s.queue.squash e } := by
  obtain ⟨bs, hrep, hg⟩ := hi.linked
  exact ⟨hi.nodup, hi.scheduled, hi.onQueue, bs, { hrep with }, hg⟩

theorem Inv.init (h : (machine ι).init s) : Inv s := by
  obtain ⟨hhead, hsch, hl⟩ := h
  refine ⟨by simp [hl], by simp [hl, hsch], by simp [hl], [], ⟨hhead, by simp⟩, ?_⟩
  rw [hl]
  exact .empty

omit [DecidableEq ι] [Fintype ι] in
theorem Inv.wellFormed (hi : Inv s) : ∃ bins, WellFormed s.queue bins := by
  obtain ⟨bs, hrep, hg⟩ := hi.linked
  refine ⟨bs, hrep.spine, hrep.inner, hg.nodup hi.nodup, fun e => ?_, ?_, fun b hb e he => ?_⟩
  · rw [hg.mem, hi.scheduled]
  · exact hg.sorted.imp (lt_iff ..).2
  · exact (eq_iff ..).2 (hg.key_eq hb (mem_cons_of_mem _ he))

omit [DecidableEq ι] [Fintype ι] in
theorem Inv.head_ne_none (hi : Inv s) (hne : s.recent ≠ []) : s.queue.head ≠ none := by
  obtain ⟨bs, hrep, hg⟩ := hi.linked
  cases bs with
  | nil =>
    obtain ⟨x, hx⟩ := exists_mem_of_ne_nil _ hne
    exact absurd (hg.mem.2 hx) not_mem_nil
  | cons b bs => simp [(Rep.cons.1 hrep).1]

theorem Inv.servesLeast (hi : Inv s) : ServesLeast s := by
  intro hne
  obtain ⟨q', e, newer, older, hrun, hserved, hl, hnewer, holder, -⟩ :=
    hi.serviceOne (hi.head_ne_none hne)
  refine ⟨q', e, newer, older, hrun, hserved.scheduled_eq, hl, fun x hx => ?_, fun x hx => ?_⟩
  · exact (lt_iff ..).2 (hnewer x hx)
  · exact mt (lt_iff ..).1 (not_lt.2 (holder x hx))

theorem Inv.step (hi : Inv s) (he : enabled s op) : ∃ s', step s op = .ok s' ∧ Inv s' := by
  cases op with
  | insert e t =>
    obtain ⟨q', hrun, -, -, hi'⟩ := hi.insert he
    exact ⟨_, by rw [EventOrder.step, hrun]; rfl, hi'⟩
  | remove e =>
    obtain ⟨q', hrun, -, -, hi'⟩ := hi.remove he
    exact ⟨_, by rw [EventOrder.step, hrun]; rfl, hi'⟩
  | serviceOne =>
    obtain ⟨q', e, _, _, hrun, -, -, -, -, hi'⟩ := hi.serviceOne he
    exact ⟨_, by rw [EventOrder.step, hrun]; rfl, hi'⟩
  | squash e => exact ⟨_, rfl, hi.squash e⟩

/-! ## Time -/

/-- No scheduled event is in the past. -/
def NoPast (s : State ι) : Prop := ∀ e ∈ s.recent, s.queue.curTick ≤ s.queue.when e

theorem Inv.step_timely {s' : State ι} (hi : Inv s) (hp : NoPast s)
    (he : enabled s op) (ht : Timely s op) (hs : EventOrder.step s op = .ok s') :
    s.queue.curTick ≤ s'.queue.curTick ∧ NoPast s' := by
  cases op with
  | insert e t =>
    obtain ⟨q', hrun, hcur, hwhen, -⟩ := hi.insert he
    rw [EventOrder.step, hrun] at hs
    cases hs
    refine ⟨hcur.ge, fun x hx => ?_⟩
    rw [hcur, hwhen]
    by_cases hxe : x = e
    · rw [hxe, update_self]
      exact ht
    · rw [update_of_ne hxe]
      exact hp x ((mem_cons.1 hx).resolve_left hxe)
  | remove e =>
    obtain ⟨q', hrun, hcur, hwhen, -⟩ := hi.remove he
    rw [EventOrder.step, hrun] at hs
    cases hs
    refine ⟨hcur.ge, fun x hx => ?_⟩
    rw [hcur, hwhen]
    exact hp x (mem_of_mem_erase hx)
  | serviceOne =>
    obtain ⟨q', e, newer, older, hrun, hserved, hl, hnewer, holder, -⟩ := hi.serviceOne he
    rw [EventOrder.step, hrun] at hs
    cases hs
    have hle : ∀ x ∈ s.recent, s.queue.when e ≤ s.queue.when x := by
      intro x hx
      have hkey : key s.queue e ≤ key s.queue x := by
        rw [hl] at hx
        exact forall_mem_append.2 ⟨fun x hx => (hnewer x hx).le, forall_mem_cons.2 ⟨le_rfl, holder⟩⟩ x hx
      rcases Prod.Lex.toLex_le_toLex.1 hkey with h | h
      · exact h.le
      · exact h.1.le
    have hcur : s.queue.curTick ≤ q'.curTick ∧ q'.curTick ≤ s.queue.when e := by
      have hpe := hp e (by simp [hl])
      rw [hserved.curTick_eq]
      split
      · exact ⟨le_rfl, hpe⟩
      · exact ⟨hpe, le_rfl⟩
    refine ⟨hcur.1, fun x hx => ?_⟩
    rw [hserved.when_eq]
    exact hcur.2.trans (hle x (mem_of_mem_erase hx))
  | squash e =>
    cases hs
    exact ⟨le_rfl, hp⟩

/-- **The event queue is a priority queue.** In every run the queue is well
formed and serves the least event, of equals the most recent, and no operation
panics. In every run that inserts no event in the past, time never goes back. -/
theorem priority_queue (ι : Type) [DecidableEq ι] [Fintype ι] :
    (∀ x, (machine ι).lts.Reachable x →
      ∃ s, x = .ok s ∧ (∃ bins, WellFormed s.queue bins) ∧ ServesLeast s) ∧
    ∀ s op s', ((machine ι).under Timely).Reachable (.ok s) → enabled s op → Timely s op →
      step s op = .ok s' → s.queue.curTick ≤ s'.queue.curTick := by
  constructor
  · intro x hr
    obtain ⟨s, rfl, hi⟩ := Machine.total (fun s => Inv.init) (fun s op hi he _ => hi.step he)
      (Machine.unguarded hr)
    exact ⟨s, rfl, hi.wellFormed, hi.servesLeast⟩
  · intro s op s' hr he ht hs
    obtain ⟨_, hs₁, hi, hp⟩ := Machine.total (I := fun s => Inv s ∧ NoPast s)
      (fun s h => ⟨.init h, by simp [NoPast, h.2.2]⟩)
      (fun s op hI he ht => by
        obtain ⟨s', hs', hi'⟩ := hI.1.step he
        exact ⟨s', hs', hi', (hI.1.step_timely hI.2 he ht hs').2⟩) hr
    cases hs₁
    exact (hi.step_timely hp he ht hs).1

end

/-! ## One run -/

/-- Four events, of which the last has a higher priority. -/
def fresh : State (Fin 4) where
  queue :=
    { head := none
      curTick := 0
      nextBin := fun _ => none
      nextInBin := fun _ => none
      when := fun _ => 0
      priority := fun e => if e = 3 then -1 else 0
      queue := fun _ => false
      scheduled := fun _ => false
      squashed := fun _ => false }
  recent := []

instance (s : State (Fin 4)) (op : Op (Fin 4)) : Decidable (enabled s op) := by
  cases op <;> dsimp only [enabled] <;> infer_instance

/-- Three events of one tick, of which the middle one is removed, and one before them. -/
theorem priority_queue_four :
    ∃ s, (machine (Fin 4)).lts.Reachable (.ok s) ∧ s.recent = [3, 2, 0] ∧
      (∃ bins, WellFormed s.queue bins) ∧ ServesLeast s := by
  have hr := fun {y} => Machine.lts_decided (M := machine (Fin 4)) (P := enabled) (fun _ _ => id)
    [.insert 0 5, .insert 1 5, .insert 2 5, .remove 1, .insert 3 5] (y := y)
    (s := fresh) ⟨rfl, fun _ => rfl, rfl⟩
  obtain ⟨s, hs, hbins, hserves⟩ := (priority_queue (Fin 4)).1 _ (hr rfl)
  cases hs
  exact ⟨_, hr rfl, rfl, hbins, hserves⟩

end Gem5Cxl.L3.EventOrder
