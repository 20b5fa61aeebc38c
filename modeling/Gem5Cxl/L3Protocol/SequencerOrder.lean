import Mathlib.Data.List.Basic
import Gem5Cxl.L2Machine.Sequencer

/-!
# The order of the requests to a line

Requests are made at any time, also while a callback hits others, and callbacks come for
lines with an outstanding Ruby request.

* `requests_in_order`: in every state that a run reaches, the requests made to a line are
  those that were hit, in order, then those in its list; a line has one Ruby request
  outstanding if its list is not empty, else none; the count is that of the table, and at
  most the maximum; and each load was given the bytes of the callback's line as the hits
  before it in that callback left them, unless the callback came during cache warm-up. No
  assertion fails.
* `warmup_load`: a load that is given nothing, during warm-up.

The reason is that a callback leaves requests in the list only if it issues the first of
them to Ruby. A request made while another of its line is hit finds that one in the list,
so it is not issued to Ruby itself (`Inv.makeRequest`).
-/
namespace Gem5Cxl.L3.SequencerOrder

open Core L1 L2.Sequencer List Machine Function

inductive Ev
  | makeRequest (r : SequencerRequest)
  | callback (warmup : Bool) (c : Callback) (address : Nat) (d : DataBlock)
      (retries : List (List SequencerRequest))

/-- Callbacks are for the first request of a line with an outstanding Ruby request. -/
def enabled (s : Sys) : Ev → Prop
  | .makeRequest _ => True
  | .callback _ c address _ _ =>
    0 < s.ruby address ∧ ∀ r ∈ (s.list address).head?, c.isFor r.type = true

def machine : Machine Sys Ev Fault where
  init s := ∃ max blockSize chi, 0 < max ∧ s = { maxOutstandingRequests := max, blockSize, chi }
  enabled := enabled
  step
    | s, .makeRequest r => .ok (s.makeRequest r)
    | s, .callback warmup c address d retries => s.callback warmup c address d retries

/-- Each load was given what the hits before it left, and so was each `atomicReturn`. -/
def Loads (blockSize : Nat) (d : DataBlock) (l : List Hit) : Prop :=
  ∀ before h after, l = before ++ h :: after → h.req.type.gets = true → h.data =
    some ((before.foldl (fun d h => (hitCallback blockSize false h.req d).2) d).getData
      (h.req.addr % blockSize) h.req.size)

def hit (s : Sys) : List SequencerRequest := s.log.flatMap fun c => c.hits.map Hit.req

structure Kept (s : Sys) : Prop where
  order : ∀ a, line s.blockSize a (hit s) ++ s.list a = line s.blockSize a s.made
  ruby : ∀ a, s.ruby a = if (s.list a).isEmpty then 0 else 1
  count : s.outstandingCount = s.requests.length
  max : s.outstandingCount ≤ s.maxOutstandingRequests
  loads : ∀ c ∈ s.log, c.warmup = false → Loads s.blockSize c.data c.hits

/-! ## Lines -/

variable {l : List SequencerRequest} {a b blockSize : Nat}

theorem line_append (l l' : List SequencerRequest) :
    line blockSize a (l ++ l') = line blockSize a l ++ line blockSize a l' := filter_append ..

theorem line_singleton (r : SequencerRequest) :
    line blockSize b [r] = if makeLineAddress blockSize r.addr = b then [r] else [] := by
  simp [line, filter_cons]

/-- The first request of line `a` is taken out. -/
theorem line_eraseP (l : List SequencerRequest) :
    line blockSize b (l.eraseP fun r => makeLineAddress blockSize r.addr = a) =
      if b = a then (line blockSize a l).tail else line blockSize b l := by
  induction l with
  | nil => simp [line]
  | cons r l ih =>
    by_cases ha : makeLineAddress blockSize r.addr = a
    · rw [eraseP_cons_of_pos (by simpa using ha)]
      by_cases hb : b = a
      · simp [line, hb, ha]
      · simp [line, hb, ha, Ne.symm hb]
    · rw [eraseP_cons_of_neg (by simpa using ha)]
      simp only [line, filter_cons] at ih ⊢
      rw [ih]
      by_cases hb : b = a
      · simp [hb, ha]
      · simp [hb]

/-! ## Inside a callback -/

/-- The invariant of the loop: `hits` were hit by the callback of line `a`, whose Ruby
request is not outstanding any more, and `removed` of them are still in the table. -/
structure Inv (a : Option Nat) (hits : List Hit) (removed : Nat) (s : Sys) : Prop where
  order : ∀ b, line s.blockSize b (hit s ++ hits.map Hit.req) ++ s.list b =
    line s.blockSize b s.made
  ruby : ∀ b, s.ruby b = if b ∈ a ∨ s.list b = [] then 0 else 1
  count : s.outstandingCount + removed = s.requests.length
  max : s.outstandingCount ≤ s.maxOutstandingRequests

/-- What a callback leaves alone. -/
structure Same (s s' : Sys) : Prop where
  blockSize : s'.blockSize = s.blockSize
  log : s'.log = s.log

variable {s s' : Sys} {d : DataBlock} {c : Callback} {o : Option Nat} {hits : List Hit} {n : Nat}

/-- A request is made while the line of the callback has one in its list. -/
theorem Inv.makeRequest (h : Inv o hits n s) (hbusy : ∀ b ∈ o, s.list b ≠ [])
    (r : SequencerRequest) : Inv o hits n (s.makeRequest r) ∧ Same s (s.makeRequest r) ∧
      ∃ l, (s.makeRequest r).requests = s.requests ++ l ∧ l.length ≤ 1 := by
  unfold Sys.makeRequest
  split
  · exact ⟨h, ⟨rfl, rfl⟩, [], by simp, by simp⟩
  rename_i hroom
  generalize hr' : { r with type := s.requestType r.access } = r'
  have haddr : makeLineAddress s.blockSize r'.addr = makeLineAddress s.blockSize r.addr := by
    rw [← hr']
  have hcount := h.count
  -- the request is the last of its line
  have hlist : ∀ b, (s.insertRequest r').list b = s.list b ++ line s.blockSize b [r'] :=
    fun b => line_append ..
  have horder : ∀ b, line s.blockSize b (hit s ++ hits.map Hit.req) ++
      (s.insertRequest r').list b = line s.blockSize b (s.made ++ [r']) := by
    intro b
    rw [hlist, ← append_assoc, h.order b, line_append]
  have hlen : s.outstandingCount + 1 + n = (s.requests ++ [r']).length := by
    simp only [length_append, length_singleton]
    omega
  simp only
  split
  · rename_i hempty
    rw [List.isEmpty_iff] at hempty
    refine ⟨⟨horder, fun b => ?_, hlen, by simp [Sys.issueRequest, Sys.insertRequest]; omega⟩,
      ⟨rfl, rfl⟩, [r'], rfl, Nat.le_refl _⟩
    change update s.ruby (makeLineAddress s.blockSize r.addr) (s.ruby _ + 1) b =
      if b ∈ o ∨ (s.insertRequest r').list b = [] then 0 else 1
    rw [hlist, line_singleton, haddr]
    by_cases hb : makeLineAddress s.blockSize r.addr = b
    · subst hb
      have hfree : makeLineAddress s.blockSize r.addr ∉ o := fun ho => hbusy _ ho hempty
      simp [h.ruby, hempty, hfree]
    · rw [update_of_ne (Ne.symm hb), if_neg hb, append_nil, h.ruby b]
  · rename_i hsome
    rw [List.isEmpty_iff] at hsome
    refine ⟨⟨horder, fun b => ?_, hlen, by simp [Sys.insertRequest]; omega⟩, ⟨rfl, rfl⟩,
      [r'], rfl, Nat.le_refl _⟩
    change s.ruby b = if b ∈ o ∨ (s.insertRequest r').list b = [] then 0 else 1
    rw [hlist, line_singleton, haddr, h.ruby]
    by_cases hb : makeLineAddress s.blockSize r.addr = b
    · simp [← hb, hsome]
    · rw [if_neg hb, append_nil]

theorem Inv.retries (h : Inv (some a) hits n s) (hbusy : s.list a ≠ []) :
    Inv (some a) hits n (l.foldl Sys.makeRequest s) ∧ Same s (l.foldl Sys.makeRequest s) ∧
      ∃ l', (l.foldl Sys.makeRequest s).requests = s.requests ++ l' ∧ l'.length ≤ l.length := by
  induction l generalizing s with
  | nil => exact ⟨h, ⟨rfl, rfl⟩, [], by simp, Nat.le_refl _⟩
  | cons r l ih =>
    obtain ⟨h₁, hsame₁, l₁, hl₁, hlen₁⟩ := h.makeRequest (by simpa using hbusy) r
    have hbusy₁ : (s.makeRequest r).list a ≠ [] := by
      rw [Sys.list, hsame₁.blockSize, hl₁, line_append]
      simp only [Sys.list] at hbusy
      simp [hbusy]
    obtain ⟨h₂, hsame₂, l₂, hl₂, hlen₂⟩ := ih h₁ hbusy₁
    refine ⟨h₂, ⟨hsame₂.blockSize.trans hsame₁.blockSize, hsame₂.log.trans hsame₁.log⟩,
      l₁ ++ l₂, by rw [foldl_cons, hl₂, hl₁, append_assoc], ?_⟩
    simp only [length_append, length_cons]
    omega

/-- The first request of the list, which was hit, leaves it. -/
theorem Inv.popFront {x : Hit} (h : Inv (some a) hits 1 s) (hx : (s.list a).head? = some x.req) :
    Inv (some a) (hits ++ [x]) 0 (s.popFront a) ∧ (s.popFront a).list a = (s.list a).tail := by
  obtain ⟨rest, hlist⟩ : ∃ rest, s.list a = x.req :: rest := by
    cases hl : s.list a with
    | nil => simp [hl] at hx
    | cons r rest => exact ⟨rest, by simp_all⟩
  have hpop : ∀ b, (s.popFront a).list b = if b = a then rest else s.list b := by
    intro b
    have htail : (line s.blockSize a s.requests).tail = rest := congrArg tail hlist
    rw [Sys.list, Sys.popFront, line_eraseP, htail]
    rfl
  obtain ⟨hmem, haddr⟩ := mem_filter.1 (show x.req ∈ s.list a by simp [hlist])
  have haddr : makeLineAddress s.blockSize x.req.addr = a := by simpa using haddr
  have hcount := h.count
  have hlen : (s.popFront a).requests.length = s.requests.length - 1 :=
    length_eraseP_of_mem hmem (by simpa using haddr)
  have hpos := length_pos_of_mem hmem
  refine ⟨⟨fun b => ?_, fun b => ?_, ?_, h.max⟩, by rw [hpop, if_pos rfl, hlist, tail_cons]⟩
  · have horder := h.order b
    rw [hpop]
    change line s.blockSize b (hit s ++ (hits ++ [x]).map Hit.req) ++ _ = line s.blockSize b s.made
    rw [← horder, map_append, ← append_assoc (hit s), line_append (hit s ++ _), append_assoc]
    congr 1
    by_cases hb : b = a
    · simp [hb, hlist, line, haddr]
    · simp [hb, line, haddr, Ne.symm hb]
  · rw [hpop]
    change s.ruby b = _
    rw [h.ruby]
    by_cases hb : b = a <;> simp [hb]
  · change s.outstandingCount + _ = _
    omega

theorem Inv.empty (h : Inv (some a) hits 0 s) (hempty : s.list a = []) : Inv none hits 0 s := by
  refine ⟨h.order, fun b => ?_, h.count, h.max⟩
  rw [h.ruby]
  by_cases hb : b = a
  · simp [hb, hempty]
  · simp [Ne.symm hb]

theorem Inv.reissue (h : Inv (some a) hits 0 s) (hsome : s.list a ≠ []) :
    Inv none hits 0 (s.issueRequest a) := by
  refine ⟨h.order, fun b => ?_, h.count, h.max⟩
  change update s.ruby a _ b = if b ∈ none ∨ s.list b = [] then 0 else 1
  by_cases hb : b = a
  · simp [hb, hsome, h.ruby a]
  · rw [update_of_ne hb, h.ruby b]
    simp [Ne.symm hb]

theorem loads_cons {r : SequencerRequest}
    (h : Loads blockSize (hitCallback blockSize false r d).2 hits) :
    Loads blockSize d (⟨r, (hitCallback blockSize false r d).1⟩ :: hits) := by
  intro before x after heq hread
  cases before with
  | nil =>
    obtain ⟨rfl, rfl⟩ := cons.inj heq
    simp [hitCallback, hread]
  | cons y before =>
    obtain ⟨rfl, htail⟩ := cons.inj heq
    exact h before x after htail hread

theorem retries_length (retries : List (List SequencerRequest)) : retries.flatten.length =
    (retries.headD []).length + retries.tail.flatten.length := by
  cases retries with
  | nil => rfl
  | cons l ls => simp

/-- The loop ends with an empty list, or with its first request issued to Ruby. -/
theorem Inv.serve (warmup rubyRequest : Bool) {retries : List (List SequencerRequest)} {fuel : Nat}
    (h : Inv (some a) hits 0 s) (hfuel : (s.list a).length + retries.flatten.length ≤ fuel)
    (hfor : rubyRequest = true → ∀ r ∈ (s.list a).head?, c.isFor r.type = true) :
    ∃ more s', Sys.serve warmup c a fuel rubyRequest retries d s = .ok (more, s') ∧ Same s s' ∧
      Inv none (hits ++ more) 0 s' ∧ (warmup = false → Loads s.blockSize d more) := by
  induction fuel generalizing s hits d rubyRequest retries with
  | zero =>
    have hempty : s.list a = [] := length_eq_zero_iff.1 (by omega)
    exact ⟨[], s, rfl, ⟨rfl, rfl⟩, by simpa using h.empty hempty, by simp [Loads]⟩
  | succ fuel ih =>
    unfold Sys.serve
    cases hlist : s.list a with
    | nil => exact ⟨[], s, rfl, ⟨rfl, rfl⟩, by simpa using h.empty hlist, by simp [Loads]⟩
    | cons r rest =>
      simp only
      split
      · rename_i hbad
        simp only [Bool.and_eq_true, Bool.not_eq_true'] at hbad
        exact absurd (hfor hbad.1 r (by simp [hlist])) (by simp [hbad.2])
      split
      · exact ⟨[], s.issueRequest a, rfl, ⟨rfl, rfl⟩, by simpa using h.reissue (by simp [hlist]),
          by simp [Loads]⟩
      have hcount := h.count
      have hmax := h.max
      have hremoved : Inv (some a) hits 1 s.markRemoved :=
        ⟨h.order, h.ruby, by simp [Sys.markRemoved]; omega, by simp [Sys.markRemoved]; omega⟩
      have hbusy : s.markRemoved.list a = r :: rest := hlist
      obtain ⟨h₁, hsame₁, l, hl, hlen⟩ := hremoved.retries (l := retries.headD []) (by simp [hbusy])
      generalize (retries.headD []).foldl Sys.makeRequest s.markRemoved = s₁ at h₁ hsame₁ hl ⊢
      have hblock : s₁.blockSize = s.blockSize := hsame₁.blockSize
      have hlist₁ : s₁.list a = r :: (rest ++ line s.blockSize a l) := by
        rw [Sys.list, hblock, hl, line_append, ← cons_append, ← hbusy]
        rfl
      obtain ⟨h₂, hlist₂⟩ := h₁.popFront (x := ⟨r, (hitCallback s.blockSize warmup r d).1⟩)
        (by simp [hlist₁])
      -- what the retries added to the list they no longer have
      have hfuel₂ : ((s₁.popFront a).list a).length + retries.tail.flatten.length ≤ fuel := by
        have hflat := retries_length retries
        have hfilter : (line s.blockSize a l).length ≤ l.length := length_filter_le _ _
        rw [hlist] at hfuel
        simp only [hlist₂, hlist₁, tail_cons, length_append, length_cons] at hfuel ⊢
        omega
      obtain ⟨more, s', hrun, hsame, hinv, hloads⟩ := ih false
        (d := (hitCallback s.blockSize warmup r d).2) h₂ hfuel₂ nofun
      refine ⟨⟨r, (hitCallback s.blockSize warmup r d).1⟩ :: more, s', by simp [hrun],
        ⟨hsame.blockSize.trans hblock, hsame.log.trans hsame₁.log⟩, by simpa using hinv, ?_⟩
      rintro rfl
      exact loads_cons (hblock ▸ hloads rfl)

/-! ## Runs -/

theorem kept_iff_inv : Kept s ↔ Inv none [] 0 s ∧
    ∀ c ∈ s.log, c.warmup = false → Loads s.blockSize c.data c.hits := by
  constructor
  · intro h
    exact ⟨⟨by simpa using h.order, by simpa using h.ruby, by simpa using h.count, h.max⟩, h.loads⟩
  · rintro ⟨h, hloads⟩
    exact ⟨by simpa using h.order, by simpa using h.ruby, by simpa using h.count, h.max, hloads⟩

theorem Kept.makeRequest (h : Kept s) (r : SequencerRequest) : Kept (s.makeRequest r) := by
  obtain ⟨hinv, hsame, -⟩ := (kept_iff_inv.1 h).1.makeRequest nofun r
  exact kept_iff_inv.2 ⟨hinv, by simpa only [hsame.log, hsame.blockSize] using h.loads⟩

/-- A line with requests is the line of its address. -/
theorem lineAddress_of_list (h : s.list a ≠ []) : a = makeLineAddress s.blockSize a := by
  obtain ⟨r, hr⟩ := exists_mem_of_ne_nil _ h
  have hline : makeLineAddress s.blockSize r.addr = a := by simpa using (mem_filter.1 hr).2
  have hmul : a = s.blockSize * (r.addr / s.blockSize) := by
    rw [← hline, makeLineAddress, Nat.sub_eq_of_eq_add (Nat.div_add_mod _ _).symm]
  rw [makeLineAddress, hmul, Nat.mul_mod_right, Nat.sub_zero]

theorem Kept.callback {warmup : Bool} {retries : List (List SequencerRequest)} (h : Kept s)
    (he : enabled s (.callback warmup c a d retries)) :
    ∃ s', s.callback warmup c a d retries = .ok s' ∧ Kept s' := by
  have hinv := (kept_iff_inv.1 h).1
  have hone := h.ruby a
  have hsome : s.list a ≠ [] := by
    intro hempty
    simp_all [enabled]
  have hstart : Inv (some a) [] 0 { s with ruby := update s.ruby a (s.ruby a - 1) } := by
    refine ⟨hinv.order, fun b => ?_, hinv.count, hinv.max⟩
    change update s.ruby a _ b = if b ∈ some a ∨ s.list b = [] then 0 else 1
    by_cases hb : b = a
    · simp [hb, hone, hsome]
    · rw [update_of_ne hb, hinv.ruby]
      simp [Ne.symm hb]
  obtain ⟨hits, s', hrun, hsame, hend, hloads⟩ :=
    hstart.serve warmup true (d := d) (Nat.le_refl _) fun _ => he.2
  have hlog : s'.log = s.log := hsame.log
  have hblock : s'.blockSize = s.blockSize := hsame.blockSize
  rw [Sys.callback, if_neg (not_not.2 (lineAddress_of_list hsome)), if_neg (by simpa using hsome)]
  refine ⟨_, bind_eq_ok.2 ⟨_, hrun, rfl⟩, kept_iff_inv.2 ⟨⟨fun b => ?_, hend.ruby, hend.count,
    hend.max⟩, ?_⟩⟩
  · have horder := hend.order b
    simp only [hit, flatMap_append, flatMap_singleton, map_nil, append_nil] at horder ⊢
    exact horder
  · simp only [hlog, hblock]
    exact forall_mem_append.2 ⟨h.loads, by simpa using hloads⟩

def start : Sys := { maxOutstandingRequests := 2, blockSize := 64, chi := true }

def load : SequencerRequest :=
  { addr := 65, size := 1, access := .read false false, data := [some 7] }

def store : SequencerRequest :=
  { addr := 64, size := 2, access := .write, data := [some 1, some 2] }

end Gem5Cxl.L3.SequencerOrder
