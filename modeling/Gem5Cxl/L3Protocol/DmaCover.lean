import Gem5Cxl.L2Machine.DmaPort

/-!
# DMA actions in atomic mode

`Transferred` says what one DMA action is to do: the packets cover the region
with consecutive chunks inside their lines, the completion event is scheduled
once, and a data message says it is the last one exactly on the last packet.

The data branch of `sendAtomicReq` calls `gen.next()` to find out whether the
packet is the last one, and the function calls it again to move on, so a data
message that is not the last one is followed by a skipped chunk.

* `transferred_iff`: exactly when an action is transferred. The device must be a
  `CXLDevice`, since the port casts it to one; the region must not be empty and
  must be one that the chunk generator can walk (`ChunkGenerator.Fits`); the
  replies must be ones that `ReservedData` can read; and on a device with `is_cxl`
  set no chunk but the last may be sent while the host waits for data.
* `second_chunk_skipped`: a write of two lines while the host waits for data.
-/
namespace Gem5Cxl.L3.DmaCover

open Core L1 L2 L2.DmaPort ChunkGenerator ChunkPort DmaOwner
open List hiding lookup

/-! ## The promise -/

def isCompletion : Signal → Bool
  | .completion .. => true
  | _ => false

/-- A data message says it is the last one exactly on the last packet. -/
def LastMarked (l : List Issue) : Prop :=
  ∀ n x b, l[n]? = some x → x.lastpkt = some b → (b = true ↔ n + 1 = l.length)

structure Transferred (c a s : Nat) (r : Atomic) : Prop where
  covers : Tiles a s (r.issued.map (·.chunk))
  inLine : ∀ x ∈ r.issued, InLine c x.chunk
  completes : r.port.signals.countP isCompletion = 1
  last : LastMarked r.issued

/-- One `dmaAction`: what it is given, and what its environment answers. -/
structure Action where
  traced : Bool
  replies : Nat → Reply
  owner : DmaOwner
  cmd : MemCmd
  addr : Nat
  size : Nat
  event : Nat
  delay : Nat

def Action.run (x : Action) (c fuel : Nat) : Except Fault (Option Atomic) :=
  dmaActionAtomic x.traced x.replies fuel c x.owner x.cmd x.addr x.size (some x.event) x.delay

/-- The action ends, and has transferred its region. -/
def Action.transfers (x : Action) (c : Nat) : Prop :=
  ∃ fuel r, x.run c fuel = .ok (some r) ∧ Transferred c x.addr x.size r

/-! ## The condition -/

/-- What `ReservedData` makes of a reply: nothing to reserve, a pull of data, or
a message it cannot read (`none`). -/
def verdict (r : Request) : Option Bool :=
  match reservable r with
  | none => some false
  | some m =>
    match m.body with
    | .h2dResp op _ => some (writepull op)
    | _ => none

/-- When `n` chunks are left, from packet `m` on, the host does not wait for data
before the last of them. -/
def Unhurried (replies : Nat → Reply) (cxl needData : Bool) (m n : Nat) : Prop :=
  (∀ j, j < n → verdict (replies (m + j)).req ≠ none) ∧
  (cxl = true → (1 < n → needData = false) ∧
    ∀ j, j + 2 < n → verdict (replies (m + j)).req ≠ some true)

def Action.Meets (x : Action) (c : Nat) : Prop :=
  ∃ d, x.owner = .cxlDevice d ∧ 0 < x.size ∧ ChunkGenerator.Fits c x.addr x.size ∧
    Unhurried x.replies d.isCxl d.needData 0 (lines c x.addr x.size)

/-! ## One packet -/

def pulled (d : CxlDev) (addr : Nat) (pull : Bool) : CxlDev :=
  if pull then { d with needData := true, dataDestAddr := addr } else d

@[simp] theorem pulled_isCxl (d : CxlDev) (addr : Nat) (pull : Bool) :
    (pulled d addr pull).isCxl = d.isCxl := by cases pull <;> rfl

@[simp] theorem pulled_needData (d : CxlDev) (addr : Nat) (pull : Bool) :
    (pulled d addr pull).needData = (d.needData || pull) := by cases pull <;> simp [pulled]

variable {d : CxlDev} {addr : Nat} {r : Request}

theorem reserve_unreadable (h : verdict r = none) :
    reserve (.cxlDevice d) addr r = .error .badCast := by
  cases hm : reservable r with
  | none => simp [verdict, hm] at h
  | some m =>
    simp only [reserve, hm, asCxl, ok_bind, reservedData]
    cases hb : m.body <;> simp_all [verdict]

theorem reserve_readable {pull : Bool} (h : verdict r = some pull) :
    reserve (.cxlDevice d) addr r = .ok (.cxlDevice (pulled d addr pull)) := by
  cases hm : reservable r with
  | none =>
    have hp : pull = false := by simpa [verdict, hm] using h.symm
    simp [reserve, hm, hp, pulled]
  | some m =>
    simp only [reserve, hm, asCxl, ok_bind, reservedData]
    cases hb : m.body <;> simp_all [verdict, pulled]

/-- The port between two packets of the request: `q` is the current chunk. -/
structure Mid (c s : Nat) (r : Atomic) (d : CxlDev) (q : Chunk) (rest : List Chunk)
    (st : ReqState) :
    Prop where
  owner : r.owner = .cxlDevice d
  state : r.port.states 0 = some st
  total : st.totBytes = s
  room : st.numBytes + bytes (q :: rest) ≤ s
  running : st.aborted = false
  event : st.completionEvent.isSome = true
  cxl : st.isCxl = d.isCxl
  gen : st.gen.At c q rest
  pending : r.port.pendingCount = 0
  quiet : r.port.signals.countP isCompletion = 0

section Packet

variable {c s : Nat} {r : Atomic} {d : CxlDev} {q : Chunk} {rest : List Chunk} {st : ReqState}
  {reply : Reply}

def skipped (traced : Bool) (d : CxlDev) (rest : List Chunk) : List Chunk :=
  if d.isCxl && d.needData then (if traced then rest.tail.tail else rest.tail) else rest

/-- What `prepare` does: the message says "last" on the last chunk, and the data
branch has moved the generator on. -/
theorem prepare_eq (hc : 0 < c) (h : Mid c s r d q rest st) (traced : Bool) (pkt : ChunkPacket) :
    ∃ req gen, prepare traced r.owner st pkt = .ok (req, gen) ∧
      Left c gen.next (skipped traced d rest) ∧
      ((Issue.lastpkt ⟨q, req⟩).isSome = (d.isCxl && d.needData)) ∧
      (rest = [] → ∀ b, Issue.lastpkt ⟨q, req⟩ = some b → b = true) := by
  have hn := h.gen.next_left hc
  cases hdata : d.isCxl && d.needData with
  | false =>
    -- the request branch, or a device that is not CXL: the generator stays
    obtain ⟨req, hprep, hnone⟩ : ∃ req, prepare traced r.owner st pkt = .ok (req, st.gen) ∧
        Issue.lastpkt ⟨q, req⟩ = none := by
      simp only [prepare, h.cxl, h.owner, asCxl, ok_bind]
      cases hx : d.isCxl with
      | false => exact ⟨{}, rfl, rfl⟩
      | true =>
        have hd : d.needData = false := by simpa [hx] using hdata
        simp only [hd, if_true, Bool.false_eq_true, if_false]
        exact ⟨_, rfl, rfl⟩
    exact ⟨req, _, hprep, by simpa [skipped, hdata] using hn, by simp [hnone], fun _ b hb => by simp [hnone] at hb⟩
  | true =>
    obtain ⟨hx, hd⟩ := Bool.and_eq_true_iff.1 hdata
    let gen := if traced then st.gen.next.2 else st.gen
    have hprep : prepare traced r.owner st pkt = .ok (makeDataPkt {} (!gen.next.1), gen.next.2) := by
      simp only [prepare, h.cxl, hx, h.owner, asCxl, ok_bind, hd, if_true]
      rfl
    refine ⟨_, _, hprep, ?_, rfl, ?_⟩
    · simp only [skipped, hdata, if_true]
      cases traced with
      | false => exact hn.next hc
      | true => exact (hn.next hc).next hc
    · rintro rfl b hb
      have h0 : st.gen.sizeLeft = 0 := h.gen.sizeLeft
      have hgen : gen.sizeLeft = 0 := by
        cases traced with
        | false => exact h0
        | true =>
          show st.gen.next.2.sizeLeft = 0
          rw [next_done h0]
          exact h0
      rw [next_done hgen] at hb
      exact (Option.some.inj hb).symm

theorem handleResp_mid (p : ChunkPort) (st : ReqState) (size delay : Nat)
    (hs : p.states 0 = some st)
    (hp : p.pendingCount = 1) (hb : st.numBytes + size ≤ st.totBytes) (ht : st.totBytes < 2 ^ 64)
    (ha : st.aborted = false) (he : st.completionEvent.isSome = true)
    (hq : p.signals.countP isCompletion = 0) :
    ∃ p', p.handleResp 0 size delay = .ok p' ∧ p'.pendingCount = 0 ∧
      (st.totBytes ≠ st.numBytes + size →
        p'.states 0 = some (answered st size) ∧ p'.signals.countP isCompletion = 0) ∧
      (st.totBytes = st.numBytes + size → p'.signals.countP isCompletion = 1) := by
  obtain ⟨e, he⟩ := Option.isSome_iff_exists.1 he
  refine ⟨_, handleResp_eq (by omega) hs hb ht, ?_, ?_, ?_⟩
  · by_cases hall : st.totBytes = st.numBytes + size
    · simp [finish, answered, setState, release_eq,
        delete, ha, he, hp, hall]
    · simp [finish, answered, setState, ha, hp, hall]
  · intro hall
    simp [finish, answered, setState, signalIfDrained,
      signal, ha, hp, hall, hq, isCompletion]
  · intro hall
    simp only [finish, answered, setState, signalIfDrained,
      signal, release_eq, delete, ha, he, hp, hall, if_true,
      Bool.false_eq_true, if_false, countP_append, hq]
    rfl

theorem skipped_suffix (traced : Bool) (d : CxlDev) (rest : List Chunk) :
    skipped traced d rest <:+ rest := by
  unfold skipped
  split
  · split
    · exact (tail_suffix _).trans (tail_suffix _)
    · exact tail_suffix _
  · exact suffix_refl _

theorem skipped_length (hx : d.isCxl = true) (hd : d.needData = true) (hr : rest ≠ [])
    (traced : Bool) : (skipped traced d rest).length < rest.length := by
  have hpos := length_pos_iff.2 hr
  cases traced <;> simp [skipped, hx, hd] <;> omega

theorem sendAtomicReq_unreadable (hc : 0 < c) (h : Mid c s r d q rest st) (traced : Bool)
    (hv : verdict reply.req = none) : sendAtomicReq traced reply r 0 = .error .badCast := by
  obtain ⟨req, gen, hprep, -⟩ := prepare_eq hc h traced (st.createPacket 0)
  have hset : ∀ b, ∃ d', settle r.owner b = .ok (.cxlDevice d') := by
    intro b
    cases b <;> simp [settle, h.owner, asCxl]
  obtain ⟨d', hd'⟩ := hset (!gen.next.1)
  simp only [sendAtomicReq, lookup, h.state, ok_bind, hprep, hd',
    reserve_unreadable hv, error_bind]

/-- **One packet.** It carries the current chunk; what is left after it is
`skipped`, and the request is done when that is nothing. -/
theorem sendAtomicReq_readable (hc : 0 < c) (hs : s < 2 ^ 64) (h : Mid c s r d q rest st)
    (traced : Bool) {pull : Bool} (hv : verdict reply.req = some pull) :
    ∃ r' x, sendAtomicReq traced reply r 0 = .ok (r', decide (skipped traced d rest = [])) ∧
      r'.issued = r.issued ++ [x] ∧ x.chunk = q ∧
      (x.lastpkt.isSome = (d.isCxl && d.needData)) ∧
      (rest = [] → ∀ b, x.lastpkt = some b → b = true) ∧
      (∀ q' t, skipped traced d rest = q' :: t → 0 < q'.size → ∃ d' st', Mid c s r' d' q' t st' ∧
        d'.isCxl = d.isCxl ∧ d'.needData = (d.needData || pull) ∧
        st'.numBytes = st.numBytes + q.size) ∧
      (s = st.numBytes + q.size → r'.port.signals.countP isCompletion = 1) := by
  obtain ⟨req, gen, hprep, hleft, hsome, hlast⟩ := prepare_eq hc h traced (st.createPacket 0)
  have hchunk : (st.createPacket 0).chunk = q := by
    simp only [ReqState.createPacket, ChunkGenerator.addr, ChunkGenerator.size, h.gen.curAddr,
      h.gen.curSize]
  have hdone : (!gen.next.1) = decide (skipped traced d rest = []) := by
    have hm := hleft.more
    cases hb : gen.next.1 with
    | false => simp [hm.1 hb]
    | true =>
      have : skipped traced d rest ≠ [] := fun he => by simp [hm.2 he] at hb
      simp [this]
  -- the device after the packet
  obtain ⟨d1, hset, hd1, hneed⟩ : ∃ d1, settle r.owner (!gen.next.1) = .ok (.cxlDevice d1) ∧
      d1.isCxl = d.isCxl ∧ (skipped traced d rest ≠ [] → d1 = d) := by
    rw [hdone]
    by_cases he : skipped traced d rest = []
    · refine ⟨settled d, by simp [settle, he, h.owner, asCxl], ?_,
        absurd he⟩
      unfold settled
      split <;> rfl
    · exact ⟨d, by simp [settle, he, h.owner], rfl, fun _ => rfl⟩
  rw [hdone] at hset
  -- the port after its response
  have hroom := h.room
  simp only [bytes_cons] at hroom
  obtain ⟨p', hresp, hp', hmore, hall⟩ := handleResp_mid
    (r.port.setState 0 { st with gen := gen.next.2 }).counted { st with gen := gen.next.2 } q.size
    reply.lat (by simp [setState, counted])
    (by simp [setState, counted, h.pending])
    (by simp only [h.total]; omega) (by simp only [h.total]; exact hs) h.running h.event h.quiet
  refine ⟨⟨p', .cxlDevice (pulled d1 q.addr pull), r.issued ++ [⟨q, req⟩]⟩, ⟨q, req⟩, ?_, rfl, rfl,
    hsome, hlast, ?_, ?_⟩
  · simp only [sendAtomicReq, lookup, h.state, ok_bind, hprep, hchunk, hset,
      reserve_readable hv, hresp, hdone]
  · intro q' t ht hpos
    have hne : skipped traced d rest ≠ [] := by simp [ht]
    have hb := bytes_sublist (skipped_suffix traced d rest).sublist
    rw [ht, bytes_cons] at hb
    have hlt : s ≠ st.numBytes + q.size := by omega
    obtain ⟨hst, hq⟩ := hmore (by simpa only [h.total] using hlt)
    rcases hleft with ⟨he, -⟩ | ⟨q'', t', he, -, hat⟩
    · exact absurd he hne
    · rw [ht] at he
      cases he
      refine ⟨pulled d1 q.addr pull, _, ⟨rfl, hst, h.total, ?_, h.running, h.event, ?_, hat, hp', hq⟩,
        ?_, ?_, rfl⟩
      · simp only [answered, bytes_cons]
        omega
      · simp only [answered, pulled_isCxl, hd1, h.cxl]
      · simp [hd1]
      · rw [pulled_needData, hneed hne]
  · intro he
    exact hall (by simpa only [h.total] using he)

end Packet

/-! ## The loop -/

section Loop

variable {c s : Nat} {replies : Nat → Reply} {traced : Bool} {q : Chunk} {st : ReqState}

theorem skipped_of_calm (h : d.isCxl = true → d.needData = false) (traced : Bool)
    (rest : List Chunk) : skipped traced d rest = rest := by
  unfold skipped
  rw [if_neg]
  simpa using h

theorem unhurried_cons {cxl needData pull : Bool} {m n : Nat}
    (hv : verdict (replies m).req = some pull) :
    Unhurried replies cxl needData m (n + 2) ↔
      (cxl = true → needData = false) ∧
        Unhurried replies cxl (needData || pull) (m + 1) (n + 1) := by
  have hshift j : m + 1 + j = m + (j + 1) := by omega
  simp only [Unhurried, hshift]
  rw [Nat.forall_lt_succ_left]
  cases n with
  | zero =>
    simp [hv]
    tauto
  | succ n =>
    simp only [add_zero, hv, ne_eq, reduceCtorEq, not_false_eq_true, Nat.forall_lt_succ_left, true_and,
      Nat.lt_add_left_iff_pos, Nat.zero_lt_succ, forall_const, Nat.add_lt_add_iff_right, Option.some.injEq,
      Bool.not_eq_true, Bool.or_eq_false_iff]
    tauto

theorem LastMarked.cons {x : Issue} {l : List Issue} (hx : x.lastpkt = none) (hl : LastMarked l) :
    LastMarked (x :: l) := by
  intro n y b hy hb
  cases n with
  | zero =>
    cases hy
    rw [hx] at hb
    cases hb
  | succ n =>
    rw [hl n y b hy hb, length_cons]
    omega

/-- **A loop that the host does not hurry sends every chunk.** -/
theorem sendLoop_covers (traced : Bool) (hc : 0 < c) (hs : s < 2 ^ 64) (rest : List Chunk)
    {r : Atomic} {fuel : Nat} (h : Mid c s r d q rest st)
    (hpos : ∀ p ∈ q :: rest, 0 < p.size) (hall : st.numBytes + bytes (q :: rest) = s)
    (hu : Unhurried replies d.isCxl d.needData r.issued.length (rest.length + 1))
    (hf : rest.length < fuel) :
    ∃ r' l, sendLoop traced replies 0 fuel r = .ok (some r') ∧ r'.issued = r.issued ++ l ∧
      l.map (·.chunk) = q :: rest ∧ LastMarked l ∧ r'.port.signals.countP isCompletion = 1 := by
  obtain ⟨n, rfl⟩ := Nat.exists_eq_add_of_le' hf
  clear hf
  induction rest generalizing r d q st with
  | nil =>
    obtain ⟨pull, hv⟩ := Option.ne_none_iff_exists'.1 (hu.1 0 (by simp))
    obtain ⟨r', x, hsend, hiss, hx, -, hlast, -, hcomp⟩ := sendAtomicReq_readable hc hs h traced hv
    have hdone : skipped traced d [] = [] := eq_nil_of_suffix_nil (skipped_suffix traced d [])
    refine ⟨r', [x], ?_, hiss, by simp [hx], ?_, hcomp (hall.symm)⟩
    · simp only [sendLoop]
      rw [add_zero] at hsend
      simp [hsend, hdone]
    · intro n y b hy hb
      cases n with
      | zero =>
        cases hy
        simp [hlast rfl b hb]
      | succ n => simp at hy
  | cons q' rest ih =>
    obtain ⟨pull, hv⟩ := Option.ne_none_iff_exists'.1 (hu.1 0 (by simp))
    rw [add_zero] at hv
    obtain ⟨r', x, hsend, hiss, hx, hsome, -, hmid, -⟩ := sendAtomicReq_readable hc hs h traced hv
    obtain ⟨hcalm, hu⟩ := (unhurried_cons hv).1 hu
    rw [skipped_of_calm hcalm] at hsend hmid
    obtain ⟨d', st', hm, hcx, hnd, hnum⟩ := hmid q' rest rfl (hpos q' (by simp))
    have hlen : r'.issued.length = r.issued.length + 1 := by simp [hiss]
    have hu' : Unhurried replies d'.isCxl d'.needData r'.issued.length (rest.length + 1) := by
      rw [hcx, hnd, hlen]
      exact hu
    have hsum : st'.numBytes + bytes (q' :: rest) = s := by
      simp only [bytes_cons] at hall ⊢
      omega
    obtain ⟨r'', l, hloop, hiss', hl, hmark, hcomp⟩ := ih hm (fun p hp => hpos p (mem_cons_of_mem _ hp)) hsum hu'
    have hnone : x.lastpkt = none := by
      refine Option.not_isSome_iff_eq_none.1 fun hs => ?_
      rw [hsome, Bool.and_eq_true_iff] at hs
      cases (hcalm hs.1).symm.trans hs.2
    refine ⟨r'', x :: l, ?_, ?_, by simp [hx, hl], hmark.cons hnone, hcomp⟩
    · simp only [sendLoop, hsend, ok_bind]
      exact hloop
    · rw [hiss', hiss]
      simp

/-- A data message is followed by a skipped chunk, so the packets of a loop are
some of the chunks, and all of them only if the host did not hurry it. -/
theorem sendLoop_sublist (hc : 0 < c) (hs : s < 2 ^ 64) (fuel : Nat) {rest : List Chunk}
    {r r' : Atomic} (h : Mid c s r d q rest st)
    (hpos : ∀ p ∈ q :: rest, 0 < p.size) (hr : sendLoop traced replies 0 fuel r = .ok (some r')) :
    ∃ l, r'.issued = r.issued ++ l ∧ (l.map (·.chunk)).Sublist (q :: rest) ∧
      (l.length = rest.length + 1 →
        Unhurried replies d.isCxl d.needData r.issued.length (rest.length + 1)) := by
  induction fuel generalizing r d q rest st with
  | zero => cases hr
  | succ fuel ih =>
    obtain ⟨y, hy, hr⟩ := bind_eq_ok.1 hr
    -- the reply was readable, or the run had ended here
    obtain ⟨pull, hv⟩ := Option.ne_none_iff_exists'.1 fun hv =>
      nomatch (sendAtomicReq_unreadable hc h traced hv).symm.trans hy
    obtain ⟨r1, x, hsend, hiss, hx, -, -, hmid, -⟩ := sendAtomicReq_readable hc hs h traced hv
    rw [hsend] at hy
    cases hy
    have hsub := (skipped_suffix traced d rest).sublist
    cases hskip : skipped traced d rest with
    | nil =>
      simp only [hskip, decide_true, if_true, Except.ok.injEq, Option.some.injEq] at hr
      refine ⟨[x], by rw [← hr, hiss], by simp [hx], fun hl => ?_⟩
      have : rest = [] := by simpa using hl.symm
      subst this
      simp [Unhurried, hv]
    | cons q' t =>
      have ht := hsub
      rw [hskip] at ht
      have hpos' : ∀ p ∈ q' :: t, 0 < p.size :=
        fun p hp => hpos p (mem_cons_of_mem _ (ht.subset hp))
      obtain ⟨d', st', hm, hcx, hnd, -⟩ := hmid q' t hskip (hpos' q' mem_cons_self)
      simp only [hskip, reduceCtorEq, decide_false, Bool.false_eq_true, if_false] at hr
      obtain ⟨l, hl, hls, hlu⟩ := ih hm hpos' hr
      refine ⟨x :: l, by rw [hl, hiss]; simp, ?_, fun hlen => ?_⟩
      · rw [map_cons, hx]
        exact (hls.trans ht).cons_cons q
      · -- as many packets as chunks: none was skipped, and the rest was not hurried
        have hle := hls.length_le
        have hle' := ht.length_le
        simp only [length_map, length_cons] at hle hle' hlen
        have hcalm : d.isCxl = true → d.needData = false := by
          intro hcx
          by_contra hn
          have hne : rest ≠ [] := by
            rintro rfl
            simp at hle'
          have hlt := skipped_length hcx (by simpa using hn) hne traced
          rw [hskip, length_cons] at hlt
          omega
        have hrest : rest = q' :: t := by rw [← hskip, skipped_of_calm hcalm]
        subst hrest
        have hu := hlu (by omega)
        rw [hcx, hnd, hiss] at hu
        exact (unhurried_cons hv).2 ⟨hcalm, by simpa using hu⟩

end Loop

/-! ## Regions that do not fit -/

section Misfit

variable {traced : Bool} {replies : Nat → Reply} {r r' : Atomic} {st : ReqState}

theorem handleResp_gen {p p' : ChunkPort} {size delay : Nat} {st' : ReqState}
    (h : p.handleResp 0 size delay = .ok p') (hs : p.states 0 = some st)
    (hs' : p'.states 0 = some st') : st'.gen = st.gen := by
  unfold handleResp at h
  split at h
  · cases h
  · simp only [lookup, hs, ok_bind] at h
    split at h
    · cases h
    · cases h
      rw [signalIfDrained_states] at hs'
      rcases finish_cases (setState { p with pendingCount := p.pendingCount - 1 } 0
        { st with numBytes := add64 st.numBytes size }) 0
        { st with numBytes := add64 st.numBytes size } delay with hf | ⟨sig, hf⟩
      · rw [hf] at hs'
        simp only [setState, Function.update_self, Option.some.injEq] at hs'
        rw [← hs']
      · rw [hf] at hs'
        simp [delete] at hs'

theorem prepare_bounded (owner : DmaOwner) (pkt : ChunkPacket) (hb : st.gen.Bounded) :
    Yields (fun x => x.2.Bounded) (prepare traced owner st pkt) := by
  simp only [prepare, yields_ite, yields_bind, yields_ok]
  refine ⟨fun _ d _ => ⟨fun _ => ?_, fun _ => hb⟩, fun _ => hb⟩
  cases traced with
  | false => exact hb.next
  | true => exact hb.next.next

/-- Whatever the region, a loop starts with the generator's first chunk and stays
below 2^64. -/
theorem sendLoop_first (fuel : Nat) (hst : r.port.states 0 = some st) (hb : st.gen.Bounded)
    (hr : sendLoop traced replies 0 fuel r = .ok (some r')) :
    ∃ x l, r'.issued = r.issued ++ x :: l ∧ x.chunk = ⟨st.gen.curAddr, st.gen.curSize⟩ ∧
      ∀ y ∈ x :: l, y.chunk.addr < 2 ^ 64 := by
  induction fuel generalizing r st with
  | zero => cases hr
  | succ fuel ih =>
    obtain ⟨⟨r1, done⟩, hy, hr⟩ := bind_eq_ok.1 hr
    simp only [sendAtomicReq, lookup, hst, ok_bind] at hy
    obtain ⟨⟨req, gen⟩, hprep, hy⟩ := bind_eq_ok.1 hy
    obtain ⟨o1, -, hy⟩ := bind_eq_ok.1 hy
    obtain ⟨o2, -, hy⟩ := bind_eq_ok.1 hy
    obtain ⟨p1, hresp, hy⟩ := bind_eq_ok.1 hy
    cases hy
    have hlt : st.gen.curAddr < 2 ^ 64 := hb.1
    by_cases hd : gen.next.1 = true
    · simp only [hd] at hr
      cases hs1 : p1.states 0 with
      | none =>
        -- a loop that goes on without its request state faults
        cases fuel with
        | zero => cases hr
        | succ fuel =>
          obtain ⟨z, hz, -⟩ := bind_eq_ok.1 hr
          simp [sendAtomicReq, lookup, hs1] at hz
      | some st1 =>
        have hg := handleResp_gen hresp (by simp [counted, setState]; rfl) hs1
        have hb1 : st1.gen.Bounded := by
          rw [hg]
          exact (prepare_bounded _ _ hb _ hprep).next
        obtain ⟨y, l, hl, -, hall⟩ := ih hs1 hb1 hr
        refine ⟨⟨⟨st.gen.curAddr, st.gen.curSize⟩, req⟩, y :: l, ?_, rfl, ?_⟩
        · rw [hl]
          simp only [append_assoc, singleton_append]
          rfl
        · exact forall_mem_cons.2 ⟨hlt, hall⟩
    · simp only [hd, Bool.not_false, if_true, Except.ok.injEq, Option.some.injEq] at hr
      refine ⟨⟨⟨st.gen.curAddr, st.gen.curSize⟩, req⟩, [], ?_, rfl, ?_⟩
      · rw [← hr]
        rfl
      · exact forall_mem_singleton.2 hlt

/-- A region that does not fit is not covered: its first packet leaves its line or
the region, or the region leaves the address space. -/
theorem not_transferred_of_misfit {k a s fuel : Nat} (hk : k < 64) (ha : a < 2 ^ 64)
    (hs : s < 2 ^ 64) (hf : ¬ Fits (2 ^ k) a s) (hst : r.port.states 0 = some st)
    (hgen : st.gen = .new a s (2 ^ k)) (hi : r.issued = [])
    (hr : sendLoop traced replies 0 fuel r = .ok (some r')) : ¬ Transferred (2 ^ k) a s r' := by
  intro ht
  have hb : st.gen.Bounded := by
    rw [hgen]
    exact bounded_new ha s (2 ^ k)
  obtain ⟨x, l, hl, hx, hlt⟩ := sendLoop_first fuel hst hb hr
  rw [hi, nil_append] at hl
  have hcov := ht.covers
  rw [hl, map_cons] at hcov
  have hle : a + s ≤ 2 ^ 64 := by
    refine hcov.end_le (pow_dvd_pow 2 hk.le) ha.le ?_
    rw [← map_cons]
    intro p hp
    obtain ⟨y, hy, rfl⟩ := mem_map.1 hp
    exact ⟨ht.inLine y (hl ▸ hy), hlt y hy⟩
  have hsize := hcov.cons_inv.2.1
  rw [hx, hgen] at hsize
  by_cases hlast : 2 ^ 64 ≤ a + 2 ^ k
  · -- in the last line, the first packet runs to the end of the address space
    rw [(new_lastLine hk ha hlast).1] at hsize
    dsimp only at hsize
    exact hf (.inr ⟨hlast, by omega⟩)
  · -- below the last line, the first packet is the whole region
    have hend : a + s = 2 ^ 64 := by
      by_contra hne
      exact hf (.inl ⟨by omega, by omega⟩)
    have hin := ht.inLine x (hl ▸ mem_cons_self)
    rw [hx, hgen, InLine, new_toEnd hk (by omega) hend hs] at hin
    dsimp only at hin
    omega

end Misfit

/-! ## The exact condition -/

section Exact

variable {x : Action} {k : Nat}

def Action.start (x : Action) (c : Nat) (d : CxlDev) : Atomic where
  port := ({} : ChunkPort).setState 0 (newState c d x.cmd x.addr x.size (some x.event) x.delay)
  owner := .cxlDevice d

/-- An action of a CXL device is one loop, unless its generator is done from the start. -/
theorem run_eq (ho : x.owner = .cxlDevice d) (c fuel : Nat) :
    x.run c fuel =
      if (new x.addr x.size c).done then .ok (some (x.start c d))
      else sendLoop x.traced x.replies 0 fuel (x.start c d) := by
  simp only [Action.run, dmaActionAtomic, ho, asCxl, ok_bind, sendDmaAtomic,
    push, setState, nil_append, cons_ne_nil, if_false, sendAll,
    lookup, Function.update_self, newState]
  split
  · rfl
  · show (sendLoop x.traced x.replies 0 fuel (x.start c d) >>= _) = _
    cases sendLoop x.traced x.replies 0 fuel (x.start c d) with
    | error e => rfl
    | ok y => cases y <;> rfl

theorem start_mid (hk : k < 64) (ha : x.addr < 2 ^ 64) (hpos : 0 < x.size)
    (hf : Fits (2 ^ k) x.addr x.size) :
    ∃ q rest, Mid (2 ^ k) x.size (x.start (2 ^ k) d) d q rest
        (newState (2 ^ k) d x.cmd x.addr x.size (some x.event) x.delay) ∧
      Tiles x.addr x.size (q :: rest) ∧ (∀ p ∈ q :: rest, InLine (2 ^ k) p) ∧
      (∀ p ∈ q :: rest, 0 < p.size) ∧
      (q :: rest).length = lines (2 ^ k) x.addr x.size := by
  obtain ⟨q, rest, hq, hat⟩ := new_at hk ha hf
  have hc := Nat.two_pow_pos k
  rw [chunks_pos hpos] at hq
  have htiles := hq ▸ lineChunks_tiles hc x.addr x.size
  refine ⟨q, rest, ⟨rfl, by simp [Action.start, setState], rfl, ?_, rfl, rfl, rfl, hat, rfl, rfl⟩, htiles,
    hq ▸ lineChunks_inLine hc _ _, hq ▸ lineChunks_pos hc _ _, hq ▸ lineChunks_length hc _ _ hpos⟩
  simp [newState, ← htiles.bytes_eq]

theorem transfers_of_meets (hk : k < 64) (ha : x.addr < 2 ^ 64) (hs : x.size < 2 ^ 64)
    (h : x.Meets (2 ^ k)) : x.transfers (2 ^ k) := by
  obtain ⟨d, ho, hpos, hf, hu⟩ := h
  have hc := Nat.two_pow_pos k
  obtain ⟨q, rest, hm, htiles, hin, hsizes, hlen⟩ := start_mid hk ha hpos hf
  rw [← hlen] at hu
  obtain ⟨r', l, hloop, hiss, hl, hmark, hcomp⟩ :=
    sendLoop_covers x.traced hc hs rest hm hsizes
      (by simpa [newState] using htiles.bytes_eq) hu (Nat.lt_succ_self rest.length)
  refine ⟨rest.length + 1, r', ?_, ?_, ?_, hcomp, ?_⟩
  · -- the first chunk is not empty, so the loop is entered
    have hdone : (new x.addr x.size (2 ^ k)).done = false := by
      have : (new x.addr x.size (2 ^ k)).curSize = q.size := hm.gen.curSize
      have := hsizes q mem_cons_self
      simp only [ChunkGenerator.done, decide_eq_false_iff_not]
      omega
    rw [run_eq ho, hdone]
    exact hloop
  · rw [hiss]
    simpa [Action.start, hl] using htiles
  · intro y hy
    rw [hiss] at hy
    exact hin _ (hl ▸ mem_map_of_mem (by simpa [Action.start] using hy))
  · rw [hiss]
    exact hmark

theorem meets_of_transfers (hk : k < 64) (ha : x.addr < 2 ^ 64) (hs : x.size < 2 ^ 64)
    (h : x.transfers (2 ^ k)) : x.Meets (2 ^ k) := by
  obtain ⟨fuel, r, hrun, ht⟩ := h
  have hc := Nat.two_pow_pos k
  -- the cast of the device
  obtain ⟨d, ho⟩ : ∃ d, x.owner = .cxlDevice d := by
    cases ho : x.owner with
    | cxlDevice d => exact ⟨d, rfl⟩
    | otherDevice =>
      simp [Action.run, dmaActionAtomic, ho, asCxl] at hrun
  rw [run_eq ho] at hrun
  split at hrun
  · -- a generator that is done from the start completes nothing
    cases hrun
    exact absurd ht.completes (by simp [Action.start, setState])
  · have hfits : Fits (2 ^ k) x.addr x.size := by
      by_contra hf
      have hst : (x.start (2 ^ k) d).port.states 0 =
          some (newState (2 ^ k) d x.cmd x.addr x.size (some x.event) x.delay) := by
        simp [Action.start, setState]
      exact not_transferred_of_misfit hk ha hs hf hst rfl rfl hrun ht
    rename_i hdone
    have hpos : 0 < x.size := by
      by_contra hz
      obtain ⟨q, rest, hq, hat⟩ := new_at hk ha hfits
      have hz : x.size = 0 := by omega
      rw [chunks, if_pos hz] at hq
      cases hq
      exact hdone (by simp [ChunkGenerator.done, hat.curSize])
    obtain ⟨q, rest, hm, htiles, -, hsizes, hlen⟩ := start_mid hk ha hpos hfits
    obtain ⟨l, hiss, hsub, hu⟩ := sendLoop_sublist hc hs fuel hm hsizes hrun
    have hcov := ht.covers
    rw [hiss] at hcov
    have hl : l.map (·.chunk) = q :: rest := by
      refine eq_of_bytes hsub hsizes ?_
      rw [htiles.bytes_eq]
      simpa [Action.start] using hcov.bytes_eq
    have hn := congrArg length hl
    rw [length_map] at hn
    refine ⟨d, ho, hpos, hfits, ?_⟩
    rw [← hlen]
    exact hu hn

end Exact

/-- **Exactly when a DMA action in atomic mode is transferred**: for every device,
region, line size, `need_data`, debug flag and sequence of replies. -/
theorem transferred_iff (x : Action) (k : Nat) (hk : k < 64) (ha : x.addr < 2 ^ 64)
    (hs : x.size < 2 ^ 64) : x.transfers (2 ^ k) ↔ x.Meets (2 ^ k) :=
  ⟨meets_of_transfers hk ha hs, transfers_of_meets hk ha hs⟩

/-- A read of two lines by a CXL device, with replies that carry no message. -/
def twoLineRead : Action where
  traced := false
  replies _ := ⟨{}, 0⟩
  owner := .cxlDevice {}
  cmd := .readReq
  addr := 0x90000000
  size := 128
  event := 0
  delay := 0

/-- The read is transferred. -/
theorem transferred_iff_two_lines :
    twoLineRead.addr < 2 ^ 64 ∧ twoLineRead.size < 2 ^ 64 ∧ twoLineRead.transfers (2 ^ 6) := by
  refine ⟨by decide, by decide, (transferred_iff twoLineRead 6 (by decide) (by decide) (by decide)).2 ?_⟩
  refine ⟨{}, rfl, by decide, by decide, ?_, ?_⟩
  · simp [verdict, reservable, twoLineRead]
  · intro _
    refine ⟨fun _ => rfl, ?_⟩
    simp [verdict, reservable, twoLineRead]

/-- **A chunk is skipped.** A write of two lines while the host waits for data
ends after one packet, which says it is not the last; the second line is never
sent and the completion event never scheduled. -/
theorem second_chunk_skipped :
    let x := { twoLineRead with cmd := .writeReq, owner := .cxlDevice { needData := true } }
    (∃ r, x.run (2 ^ 6) 2 = .ok (some r) ∧ r.issued.map (·.chunk) = [⟨0x90000000, 64⟩] ∧
      r.issued.map (·.lastpkt) = [some false] ∧ r.port.signals.countP isCompletion = 0) ∧
    ¬ x.transfers (2 ^ 6) := by
  refine ⟨⟨_, rfl, rfl, rfl, rfl⟩, ?_⟩
  intro h
  obtain ⟨d, ho, -, -, -, hu⟩ := meets_of_transfers (by decide) (by decide) (by decide) h
  cases ho
  exact absurd ((hu rfl).1 (by decide)) (by decide)

end Gem5Cxl.L3.DmaCover
