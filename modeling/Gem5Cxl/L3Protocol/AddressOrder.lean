import Mathlib.Data.List.Perm.Basic
import Gem5Cxl.L2Machine.MessageBuffer

/-!
# Ordered message buffers keep the order of each address

`plan n` is what the sender of the `n`-th message does: the address, the tick at which it
enqueues it and the delay. The buffer is ordered and has no random delays, and the state has
what was dequeued, with its tick.

* The consumer handles the first message when it is ready: it dequeues it, but only if no
  message of its address is stalled, or stalls it under its address.
* Stalled messages of an address, or all, go back at any time. `warmup` sets the system's flag.

**Result.** `address_order`: in every state that a run reaches, the messages dequeued, those
stalled and those in the heap are the messages enqueued, each once (`Kept.once`), and none was
dequeued before its arrival time. If nothing is enqueued while the system warms up (`Warm`), then
for every address they are, one after the other, the messages enqueued, in that order
(`Ordered.order`). Only `enqueue` faults, or a stall under an address that is not a line's.
`warmup_reorders` is a run during warm-up, when `enqueue` does not record arrival times and so
accepts any.

**Why.** Arrival times increase with the counter, so the heap is in the order of the counters, and a
message that goes back has kept its key: it comes before all of its address in the heap.
-/
namespace Gem5Cxl.L3.AddressOrder

open Core L1 L2.Ruby MessageBuffer List

structure Send where
  addr : Nat
  tick : Nat
  delta : Nat

def Send.arrival (p : Send) : Nat := p.tick + p.delta

structure Sys where
  buffer : MessageBuffer
  now : Nat := 0
  dequeued : List (Message × Nat) := []
deriving DecidableEq, Repr

inductive Call
  /-- The next message. -/
  | enqueue (message : Message)
  | dequeue
  | stall
  | reanalyze (addr : Nat)
  | reanalyzeAll
  | warmup (on : Bool)

structure Ev where
  tick : Nat
  call : Call

variable (plan : Nat → Send) {msg : Message}

def Sys.head (s : Sys) : Nat := s.buffer.prioHeap.head?.elim 0 fun m => (plan m.msgCounter).addr

def call (s : Sys) : Call → Except Fault Sys
  | .enqueue message =>
    return { s with
      buffer := ← s.buffer.enqueue message s.now (plan (s.buffer.msgCounter + 1)).delta 0 false }
  | .dequeue => do
    let (m, buffer) ← s.buffer.dequeue s.now
    return { s with buffer, dequeued := s.dequeued ++ [(m, s.now)] }
  | .stall => return { s with buffer := ← s.buffer.stallMessage (s.head plan) s.now }
  | .reanalyze addr => return { s with buffer := ← s.buffer.reanalyzeMessages addr s.now }
  | .reanalyzeAll => return { s with buffer := ← s.buffer.reanalyzeAllMessages s.now }
  | .warmup on =>
    return { s with buffer.params.warmupEnabled := on }

def step (s : Sys) (e : Ev) : Except Fault Sys := call plan { s with now := e.tick } e.call

def enabled (s : Sys) (e : Ev) : Prop :=
  s.now ≤ e.tick ∧ match e.call with
  | .enqueue _ => e.tick = (plan (s.buffer.msgCounter + 1)).tick
  | .dequeue =>
    s.buffer.isReady e.tick = .ok true ∧ ∀ entry ∈ s.buffer.stallMsgMap, entry.1 ≠ s.head plan
  | .stall => s.buffer.isReady e.tick = .ok true
  | .reanalyze addr => ∃ entry ∈ s.buffer.stallMsgMap, entry.1 = addr
  | _ => True

def machine : Machine Sys Ev Fault where
  init s := ∃ params : Params, params.strictFifo = true ∧ MessageBuffer.randomized params = false ∧
    s = { buffer := { params } }
  enabled := enabled plan
  step := step plan

/-- Nothing is enqueued during warm-up. -/
def Warm (s : Sys) (e : Ev) : Prop :=
  match e.call with
  | .enqueue _ => s.buffer.params.warmupEnabled = false
  | _ => True

def held (b : MessageBuffer) : List Message := b.stallMsgMap.flatMap Prod.snd ++ b.prioHeap

/-- The messages of address `a`, by their counters. -/
def line (a : Nat) (l : List Message) : List Nat :=
  (l.map Message.msgCounter).filter fun n => (plan n).addr = a

structure Kept (s : Sys) : Prop where
  once : ((s.dequeued.map Prod.fst ++ held s.buffer).map Message.msgCounter).Perm
    (List.range' 1 s.buffer.msgCounter)
  due : ∀ d ∈ s.dequeued, (plan d.1.msgCounter).arrival ≤ d.2

structure Ordered (s : Sys) : Prop extends Kept plan s where
  order : ∀ a, line plan a (s.dequeued.map Prod.fst ++ held s.buffer) =
    (List.range' 1 s.buffer.msgCounter).filter fun n => (plan n).addr = a

/-- The faults that are not `enqueue`'s. -/
def Bad (e : Fault) : Prop :=
  e = .assertion .requeuedInTime ∨ e = .assertion .stallMapSize ∨ e = .assertion .hasStalled ∨
    e = .assertion .bufferReady ∨ e = .assertion .popNotLater ∨ e = .assertion .delayNonneg

/-! ## The heap -/

/-- By their counters, oldest first. -/
def Sorted (heap : List Message) : Prop := heap.Pairwise fun m m' => m.msgCounter ≤ m'.msgCounter

variable {heap : List Message}

theorem push_sorted (hs : Sorted heap)
    (hafter : ∀ m ∈ heap, m.after msg = true ↔ msg.msgCounter < m.msgCounter) :
    Sorted (push heap msg) := by
  induction heap with
  | nil => exact pairwise_singleton _ _
  | cons m heap ih =>
    obtain ⟨hm, hs⟩ := pairwise_cons.1 hs
    obtain ⟨hfirst, hafter⟩ := forall_mem_cons.1 hafter
    unfold push
    split
    · rename_i hlt
      have hle := le_of_lt (hfirst.1 hlt)
      exact pairwise_cons.2 ⟨forall_mem_cons.2 ⟨hle, fun m' hm' => le_trans hle (hm m' hm')⟩,
        pairwise_cons.2 ⟨hm, hs⟩⟩
    · rename_i hlt
      refine pairwise_cons.2 ⟨fun m' hm' => ?_, ih hs hafter⟩
      rcases mem_cons.1 ((push_perm heap msg).mem_iff.1 hm') with rfl | hm'
      · exact not_lt.1 (mt hfirst.2 hlt)
      · exact hm m' hm'

theorem foldl_push_sorted {lt : List Message}
    (hafter : ∀ m ∈ heap ++ lt, ∀ m' ∈ heap ++ lt, m.after m' = true ↔ m'.msgCounter < m.msgCounter)
    (hs : Sorted heap) : Sorted (lt.foldl push heap) := by
  induction lt generalizing heap with
  | nil => exact hs
  | cons m lt ih =>
    have hperm := ((push_perm heap m).append_right lt).trans perm_middle.symm
    exact ih (fun m₁ h₁ m₂ h₂ => hafter m₁ (hperm.mem_iff.1 h₁) m₂ (hperm.mem_iff.1 h₂))
      (push_sorted hs fun m' hm' => hafter m' (mem_append_left _ hm') m (by simp))

/-! ## The messages of an address -/

variable {plan} {a t : Nat} {m : Message} {l l' : List Message} {map : List (Nat × List Message)}

theorem line_append : line plan a (l ++ l') = line plan a l ++ line plan a l' := by
  simp only [line, map_append, filter_append]

theorem line_cons :
    line plan a (m :: l) = line plan a [m] ++ line plan a l := line_append (l := [m])

theorem line_nil (h : ∀ m ∈ l, (plan m.msgCounter).addr ≠ a) : line plan a l = [] := by
  simpa [line, filter_eq_nil_iff] using h

/-- A message goes past those of other addresses. -/
theorem line_swap (h : (plan m.msgCounter).addr = a → line plan a l = []) :
    line plan a [m] ++ line plan a l = line plan a l ++ line plan a [m] := by
  by_cases ha : (plan m.msgCounter).addr = a
  · rw [h ha, append_nil, nil_append]
  · rw [line_nil (by simpa using ha), append_nil, nil_append]

variable (plan) in
/-- The stalled messages have arrived, and are filed by their addresses. -/
structure Filed (t : Nat) (map : List (Nat × List Message)) : Prop where
  keys : (map.map Prod.fst).Pairwise (· < ·)
  entry : ∀ entry ∈ map, ∀ m ∈ entry.2, (plan m.msgCounter).addr = entry.1 ∧ m.lastEnqueueTime ≤ t

theorem Filed.line_nil (h : Filed plan t map) (ha : ∀ entry ∈ map, entry.1 ≠ a) :
    line plan a (map.flatMap Prod.snd) = [] := by
  refine AddressOrder.line_nil fun m hm => ?_
  obtain ⟨entry, hentry, hm⟩ := mem_flatMap.1 hm
  exact (h.entry entry hentry m hm).1 ▸ ha entry hentry

theorem Filed.cons {entry : Nat × List Message} : Filed plan t (entry :: map) ↔
    (∀ e ∈ map, entry.1 < e.1) ∧
      (∀ m ∈ entry.2, (plan m.msgCounter).addr = entry.1 ∧ m.lastEnqueueTime ≤ t) ∧
      Filed plan t map := by
  constructor
  · rintro ⟨hkeys, hentry⟩
    obtain ⟨hlt, hkeys⟩ := pairwise_cons.1 hkeys
    obtain ⟨hfirst, hentry⟩ := forall_mem_cons.1 hentry
    exact ⟨fun e he => hlt e.1 (mem_map_of_mem he), hfirst, hkeys, hentry⟩
  · rintro ⟨hlt, hfirst, hkeys, hentry⟩
    exact ⟨pairwise_cons.2 ⟨by simpa using fun a l h => hlt (a, l) h, hkeys⟩,
      forall_mem_cons.2 ⟨hfirst, hentry⟩⟩

/-- A message that has arrived is stalled: it becomes the last of its address. -/
theorem Filed.stall (h : Filed plan t map) (hm : m.lastEnqueueTime ≤ t) :
    Filed plan t (pushStalled (plan m.msgCounter).addr m map) ∧
      (∀ e ∈ pushStalled (plan m.msgCounter).addr m map,
        e.1 = (plan m.msgCounter).addr ∨ ∃ e' ∈ map, e.1 = e'.1) ∧
      ∀ a, line plan a ((pushStalled (plan m.msgCounter).addr m map).flatMap Prod.snd) =
        line plan a (map.flatMap Prod.snd) ++ line plan a [m] := by
  induction map with
  | nil =>
    exact ⟨⟨pairwise_singleton _ _, by simp [pushStalled, hm]⟩, by simp [pushStalled], fun a => rfl⟩
  | cons entry map ih =>
    obtain ⟨hlt, hfirst, htail⟩ := Filed.cons.1 h
    unfold pushStalled
    split
    · rename_i haddr
      have hlater : ∀ e ∈ entry :: map, (plan m.msgCounter).addr < e.1 :=
        forall_mem_cons.2 ⟨haddr, fun e he => lt_trans haddr (hlt e he)⟩
      refine ⟨Filed.cons.2 ⟨hlater, by simpa using hm, h⟩,
        forall_mem_cons.2 ⟨.inl rfl, fun e he => .inr ⟨e, he, rfl⟩⟩, fun a => ?_⟩
      rw [flatMap_cons, line_append]
      exact line_swap fun ha => h.line_nil fun e he => ha ▸ ne_of_gt (hlater e he)
    · split
      · rename_i haddr
        refine ⟨Filed.cons.2 ⟨hlt, forall_mem_append.2 ⟨hfirst, by simp [haddr, hm]⟩, htail⟩,
          forall_mem_cons.2 ⟨.inl haddr, fun e he => .inr ⟨e, .tail _ he, rfl⟩⟩, fun a => ?_⟩
        simp only [flatMap_cons, line_append, append_assoc]
        rw [line_swap fun ha => htail.line_nil fun e he => ha ▸ haddr ▸ ne_of_gt (hlt e he)]
      · rename_i hge hne
        obtain ⟨hfiled, hkeys, hline⟩ := ih htail
        refine ⟨Filed.cons.2 ⟨fun e he => ?_, hfirst, hfiled⟩,
          forall_mem_cons.2 ⟨.inr ⟨_, .head _, rfl⟩, fun e he => ?_⟩, fun a => ?_⟩
        · rcases hkeys e he with heq | ⟨e', he', heq⟩
          · exact heq ▸ lt_of_le_of_ne (not_lt.1 hge) hne
          · exact heq ▸ hlt e' he'
        · exact (hkeys e he).imp_right (.imp fun e' h => ⟨.tail _ h.1, h.2⟩)
        · simp only [flatMap_cons, line_append, hline, append_assoc]

/-! ## The invariant -/

/-- Apart from the messages: the buffer is ordered, and no pop is in the future. -/
structure Tracks (b : MessageBuffer) (now : Nat) : Prop where
  strict : b.params.strictFifo = true
  fixed : MessageBuffer.randomized b.params = false
  plain : b.lastMessageStrictFifoBypassed = false
  popped : b.timeLastTimePop ≤ now

variable (plan) in
/-- What every run keeps. -/
structure Inv (s : Sys) : Prop extends Kept plan s where
  tracks : Tracks s.buffer s.now
  filed : Filed plan s.now s.buffer.stallMsgMap
  times : ∀ m ∈ held s.buffer, m.lastEnqueueTime = (plan m.msgCounter).arrival
  size : s.buffer.stallMapSize = (s.buffer.stallMsgMap.flatMap Prod.snd).length

variable (plan) in
/-- What is kept as long as `enqueue` records arrival times: they increase up to the last one. -/
structure InOrder (s : Sys) : Prop where
  order : ∀ a, line plan a (s.dequeued.map Prod.fst ++ held s.buffer) =
    (List.range' 1 s.buffer.msgCounter).filter fun n => (plan n).addr = a
  sorted : Sorted s.buffer.prioHeap
  arrivals : ∀ i j, 1 ≤ i → i ≤ j → j ≤ s.buffer.msgCounter → (plan i).arrival ≤ (plan j).arrival
  last : ∀ i, 1 ≤ i → i ≤ s.buffer.msgCounter → (plan i).arrival ≤ s.buffer.lastArrivalTime

variable (plan) in
def Keeps (s s' : Sys) : Prop := Inv plan s' ∧ (InOrder plan s → InOrder plan s')

variable {s : Sys}

theorem Kept.counter_le (h : Kept plan s) (hm : m ∈ held s.buffer) :
    1 ≤ m.msgCounter ∧ m.msgCounter ≤ s.buffer.msgCounter := by
  have hin := h.once.mem_iff.1 (mem_map_of_mem (mem_append_right _ hm))
  simp only [mem_range'_1] at hin
  omega

/-- The heap's order is that of the counters: an older message has arrived no later. -/
theorem Inv.after (h : Inv plan s) (ho : InOrder plan s) : ∀ m ∈ held s.buffer,
    ∀ m' ∈ held s.buffer, m.after m' = true ↔ m'.msgCounter < m.msgCounter := by
  intro m hm m' hm'
  have hb := h.counter_le hm
  have hb' := h.counter_le hm'
  have h₁ := ho.arrivals m.msgCounter m'.msgCounter hb.1
  have h₂ := ho.arrivals m'.msgCounter m.msgCounter hb'.1
  simp only [Message.after, h.times m hm, h.times m' hm']
  split
  · simp
  · simp only [decide_eq_true_eq]
    omega

theorem Inv.advance (h : Inv plan s) (ht : s.now ≤ t) : Inv plan { s with now := t } :=
  { h with
    tracks.popped := le_trans h.tracks.popped ht
    filed.entry := fun e he m hm =>
      ⟨(h.filed.entry e he m hm).1, le_trans (h.filed.entry e he m hm).2 ht⟩ }

/-! ## The first message is handled -/

theorem Tracks.countPop {b : MessageBuffer} {now : Nat} (h : Tracks b now) (heap : List Message) :
    Tracks { b.countPop now with prioHeap := heap } now := by
  unfold MessageBuffer.countPop
  split
  · exact { h with popped := le_rfl }
  · exact { h with }

section

variable (h : Inv plan s) (hready : s.buffer.isReady s.now = .ok true)
include h hready

/-- The first message is there, has arrived and can be taken. -/
theorem ready_head :
    ∃ m heap d, s.buffer.prioHeap = m :: heap ∧ s.head plan = (plan m.msgCounter).addr ∧
      m.lastEnqueueTime ≤ s.now ∧ s.buffer.readyFront s.now = .ok (m, heap) ∧
      s.buffer.dequeue s.now =
        .ok ({ m with delayedTicks := d }, { s.buffer.countPop s.now with prioHeap := heap }) := by
  have hready' := hready
  unfold isReady at hready'
  rw [if_neg (not_lt.2 h.tracks.popped)] at hready'
  cases hheap : s.buffer.prioHeap with
  | nil => simp [hheap] at hready'
  | cons m heap =>
    simp only [hheap, Except.ok.injEq, Bool.and_eq_true, decide_eq_true_eq] at hready'
    have hfront : s.buffer.readyFront s.now = .ok (m, heap) := by
      simp [readyFront, hready, hheap, pure, Except.pure]
    refine ⟨m, heap, m.delayedTicks + (s.now - m.lastEnqueueTime), rfl, by simp [Sys.head, hheap],
      hready'.2, hfront, ?_⟩
    simp only [MessageBuffer.dequeue, hfront, ok_bind, Message.updateDelayedTicks,
      if_neg (not_lt.2 hready'.2)]
    rfl

theorem Inv.dequeue (hfree : ∀ entry ∈ s.buffer.stallMsgMap, entry.1 ≠ s.head plan) :
    Ensures Bad (Keeps plan s) (call plan s .dequeue) := by
  obtain ⟨m, heap, d, hheap, hhead, harrived, -, hrun⟩ := ready_head h hready
  have htracks := h.tracks.countPop heap
  obtain ⟨x, y, z, n, hcount⟩ := countPop_eq s.buffer s.now
  rw [hcount] at hrun htracks
  simp only [call, hrun, ok_bind]
  refine .ok ⟨⟨⟨?_, forall_mem_append.2 ⟨h.due, ?_⟩⟩, htracks, h.filed, fun m' hm' => h.times m' ?_,
    h.size⟩, fun ho => ⟨fun a => ?_, (pairwise_cons.1 (hheap ▸ ho.sorted)).2, ho.arrivals, ho.last⟩⟩
  · refine Perm.trans ?_ h.once
    simp only [held, hheap, map_append, map_cons, map_nil, append_assoc, singleton_append]
    exact perm_middle.symm.append_left _
  · simpa using h.times m (by simp [held, hheap]) ▸ harrived
  · simp only [held, hheap, mem_append, mem_cons] at hm' ⊢
    exact hm'.imp_right .inr
  · rw [← ho.order a]
    simp only [held, hheap, map_append, map_singleton, line_append, append_assoc]
    -- nothing of its address is stalled
    have hswap := line_swap (a := a) fun ha => h.filed.line_nil fun e he => ha ▸ hhead ▸ hfree e he
    rw [line_cons (l := heap), ← append_assoc (line plan a (s.buffer.stallMsgMap.flatMap _)),
      ← hswap, append_assoc]
    rfl

theorem Inv.stall : Ensures Bad (Keeps plan s) (call plan s .stall) := by
  obtain ⟨m, heap, d, hheap, hhead, harrived, hfront, hrun⟩ := ready_head h hready
  have htracks := h.tracks.countPop heap
  obtain ⟨x, y, z, n, hcount⟩ := countPop_eq s.buffer s.now
  rw [hcount] at hrun htracks
  have hperm := pushStalled_perm (s.head plan) { m with delayedTicks := d } s.buffer.stallMsgMap
  obtain ⟨hfiled, -, hline⟩ := h.filed.stall (m := { m with delayedTicks := d }) harrived
  simp only [← hhead] at hfiled hline
  simp only [call, stallMessage, hfront, ok_bind]
  split
  · exact .error (by simp [Bad])
  simp only [hrun, ok_bind]
  refine .ok ⟨⟨⟨?_, h.due⟩, { htracks with }, hfiled, fun m' hm' => ?_, ?_⟩,
    fun ho => ⟨fun a => ?_, (pairwise_cons.1 (hheap ▸ ho.sorted)).2, ho.arrivals, ho.last⟩⟩
  · refine Perm.trans ?_ h.once
    simp only [held, hheap, map_append, map_cons]
    exact (((hperm.map Message.msgCounter).append_right _).trans perm_middle.symm).append_left _
  · rcases mem_append.1 hm' with hm' | hm'
    · rcases mem_cons.1 (hperm.mem_iff.1 hm') with rfl | hm'
      · exact h.times m (by simp [held, hheap])
      · exact h.times m' (mem_append_left _ hm')
    · exact h.times m' (by simp [held, hheap, hm'])
  · simp [hperm.length_eq, h.size]
  · simp only [← ho.order a, held, hheap, line_append, hline, append_assoc]
    rw [line_cons (l := heap)]
    rfl

end

/-! ## Stalled messages go back -/

/-- The messages of the entries `go` go back to the heap, and `rest` stays: no address is in
both. -/
theorem Inv.requeue (h : Inv plan s) (go rest : List (Nat × List Message))
    (hperm : (s.buffer.stallMsgMap.flatMap Prod.snd).Perm
      (go.flatMap Prod.snd ++ rest.flatMap Prod.snd))
    (hrest : Filed plan s.now rest)
    (hsplit : ∀ a, line plan a (rest.flatMap Prod.snd) = [] ∨
      line plan a (go.flatMap Prod.snd) = [] ∧
        line plan a (rest.flatMap Prod.snd) = line plan a (s.buffer.stallMsgMap.flatMap Prod.snd)) :
    ∃ b, go.foldlM (reanalyzeEntry s.now) s.buffer = .ok b ∧ b.stallMsgMap = s.buffer.stallMsgMap ∧
      Keeps plan s { s with buffer := { b with stallMsgMap := rest } } := by
  have hin : ∀ m ∈ s.buffer.stallMsgMap.flatMap Prod.snd, m.lastEnqueueTime ≤ s.now := by
    intro m hm
    obtain ⟨entry, hentry, hm⟩ := mem_flatMap.1 hm
    exact (h.filed.entry entry hentry m hm).2
  have hlen := hperm.length_eq
  rw [length_append] at hlen
  have hsize := h.size
  have hheap := foldl_push_perm (go.flatMap Prod.snd) s.buffer.prioHeap
  have hheld : (rest.flatMap Prod.snd ++
      (go.flatMap Prod.snd).foldl push s.buffer.prioHeap).Perm (held s.buffer) := by
    refine ((hheap.append_left _).trans perm_append_comm).trans ?_
    rw [append_assoc]
    exact perm_append_comm.trans (hperm.symm.append_right _)
  refine ⟨_, (reanalyzeEntries_iff (by omega)).2
    ⟨fun m hm => hin m (hperm.mem_iff.2 (mem_append_left _ hm)), by omega, rfl⟩, rfl,
    ⟨⟨((hheld.append_left _).map _).trans h.once, h.due⟩, { h.tracks with }, hrest,
      fun m hm => h.times m (hheld.mem_iff.1 hm), by simp only; omega⟩, fun ho => ?_⟩
  have hsorted : Sorted ((go.flatMap Prod.snd).foldl push s.buffer.prioHeap) := by
    have hin' : ∀ m ∈ s.buffer.prioHeap ++ go.flatMap Prod.snd, m ∈ held s.buffer := fun m hm =>
      hheld.mem_iff.1 (mem_append_right _ (hheap.mem_iff.2 hm))
    exact foldl_push_sorted (fun m hm m' hm' => h.after ho m (hin' m hm) m' (hin' m' hm')) ho.sorted
  refine ⟨fun a => ?_, hsorted, ho.arrivals, ho.last⟩
  -- both sides are in the order of the counters, as what was enqueued is
  have hline : ∀ {l l' : List Message}, l.Perm l' → (line plan a l).Perm (line plan a l') :=
    fun hp => (hp.map _).filter _
  have hnew : (line plan a ((go.flatMap Prod.snd).foldl push s.buffer.prioHeap)).Pairwise (· ≤ ·) :=
    (pairwise_map.2 hsorted).filter _
  have hold := (pairwise_le_range' (s := 1) (n := s.buffer.msgCounter)).filter
    fun n => (plan n).addr = a
  rw [← ho.order a, held, line_append, line_append] at hold
  obtain ⟨-, hold, -⟩ := pairwise_append.1 hold
  rw [← ho.order a]
  simp only [held, line_append]
  congr 1
  rcases hsplit a with hnil | ⟨hnil, heq⟩
  · rw [hnil]
    refine List.Perm.eq_of_pairwise (fun _ _ _ _ => le_antisymm) hnew hold ?_
    simpa [held, line_append, hnil] using hline hheld
  · congr 1
    refine List.Perm.eq_of_pairwise (fun _ _ _ _ => le_antisymm) hnew
      (pairwise_append.1 hold).2.1 ?_
    simpa [line_append, hnil] using hline hheap

theorem Inv.reanalyze (h : Inv plan s) {addr : Nat}
    (hex : ∃ entry ∈ s.buffer.stallMsgMap, entry.1 = addr) :
    Ensures Bad (Keeps plan s) (call plan s (.reanalyze addr)) := by
  have hsome : (s.buffer.stallMsgMap.find? fun entry => entry.1 = addr).isSome :=
    find?_isSome.2 (by simpa using hex)
  obtain ⟨entry, hfind⟩ := Option.isSome_iff_exists.1 hsome
  obtain ⟨l₁, l₂, hmap, herase⟩ := find_stalled hfind
  have hfiled := h.filed
  rw [hmap] at hfiled
  have hperm : (s.buffer.stallMsgMap.flatMap Prod.snd).Perm
      ([entry].flatMap Prod.snd ++ (l₁ ++ l₂).flatMap Prod.snd) := by
    simp only [hmap, flatMap_append, flatMap_cons, flatMap_nil, append_nil]
    exact perm_append_comm_assoc _ _ _
  have hsub : (l₁ ++ l₂).Sublist (l₁ ++ entry :: l₂) := (sublist_cons_self _ _).append_left _
  have hrest : Filed plan s.now (l₁ ++ l₂) :=
    ⟨hfiled.keys.sublist (hsub.map _), fun e he => hfiled.entry e (hsub.mem he)⟩
  obtain ⟨b, hrun, hb, hinv⟩ := h.requeue [entry] (l₁ ++ l₂) hperm hrest fun a => by
    by_cases ha : entry.1 = a
    · -- no other entry has this address
      have hkeys := hfiled.keys
      rw [map_append, map_cons, pairwise_append, pairwise_cons] at hkeys
      refine .inl (hrest.line_nil fun e he => ?_)
      rcases mem_append.1 he with he | he
      · exact ha ▸ ne_of_lt (hkeys.2.2 e.1 (mem_map_of_mem he) entry.1 (.head _))
      · exact ha ▸ ne_of_gt (hkeys.2.1.1 e.1 (mem_map_of_mem he))
    · have hnil : line plan a entry.2 = [] :=
        line_nil fun m hm => (hfiled.entry entry (by simp) m hm).1 ▸ ha
      simp [hmap, line_append, hnil]
  replace hrun : s.buffer.reanalyzeEntry s.now entry = .ok b := by simpa using hrun
  simp only [call, reanalyzeMessages, hfind, hrun, ok_bind, hb, herase]
  exact .ok hinv

theorem Inv.reanalyzeAll (h : Inv plan s) :
    Ensures Bad (Keeps plan s) (call plan s .reanalyzeAll) := by
  obtain ⟨b, hrun, -, hinv⟩ :=
    h.requeue s.buffer.stallMsgMap [] (by simp) ⟨.nil, by simp⟩ fun a => .inl rfl
  simp only [call, reanalyzeAllMessages, hrun, ok_bind]
  exact .ok hinv

/-! ## A message is enqueued -/

theorem push_last (h : ∀ m ∈ heap, m.after msg = false) : push heap msg = heap ++ [msg] := by
  induction heap with
  | nil => rfl
  | cons m heap ih =>
    obtain ⟨hm, hheap⟩ := forall_mem_cons.1 h
    simp [push, hm, ih hheap]

/-- A message that arrives no earlier than the others goes to the end of the heap. -/
theorem Inv.push_newest (h : Inv plan s) (hcounter : msg.msgCounter = s.buffer.msgCounter + 1)
    (htime : msg.lastEnqueueTime = (plan (s.buffer.msgCounter + 1)).arrival)
    (hle : ∀ i, 1 ≤ i → i ≤ s.buffer.msgCounter + 1 →
      (plan i).arrival ≤ (plan (s.buffer.msgCounter + 1)).arrival) :
    push s.buffer.prioHeap msg = s.buffer.prioHeap ++ [msg] := by
  refine push_last fun m hm => ?_
  have hm' : m ∈ held s.buffer := mem_append_right _ hm
  have hb := h.counter_le hm'
  have hm := hle _ hb.1 (Nat.le_succ_of_le hb.2)
  simp only [Message.after, h.times m hm', htime, hcounter]
  split <;> simp only [decide_eq_false_iff_not] <;> omega

theorem Inv.enqueue (h : Inv plan s) (message : Message)
    (htick : s.now = (plan (s.buffer.msgCounter + 1)).tick) :
    Ensures Bad (fun s' => Inv plan s' ∧
      (s.buffer.params.warmupEnabled = false → InOrder plan s → InOrder plan s'))
      (call plan s (.enqueue message)) := by
  obtain ⟨x, y, hcount⟩ := countEnqueue_eq s.buffer s.now
  obtain ⟨hstrict, hfixed, hplain, hpopped⟩ := h.tracks
  have harrival : s.now + (plan (s.buffer.msgCounter + 1)).delta =
      (plan (s.buffer.msgCounter + 1)).arrival := by
    rw [htick, Send.arrival]
  simp only [call, MessageBuffer.enqueue, hcount, MessageBuffer.arrival, hfixed, hstrict, hplain,
    Bool.false_eq_true, if_false, or_self, not_false_eq_true, true_and, harrival]
  iterate 4
    split
    · exact .error (by simp [Bad])
  rename_i hfifo hearly
  simp only [Message.updateDelayedTicks, if_neg hearly, ok_bind]
  split
  · exact .error (by simp [Bad])
  generalize hmsg : ({ message with
    lastEnqueueTime := (plan (s.buffer.msgCounter + 1)).arrival
    delayedTicks := message.delayedTicks + (s.now - message.lastEnqueueTime)
    msgCounter := s.buffer.msgCounter + 1 } : Message) = msg
  have hcounter : msg.msgCounter = s.buffer.msgCounter + 1 := by rw [← hmsg]
  have htime : msg.lastEnqueueTime = (plan (s.buffer.msgCounter + 1)).arrival := by rw [← hmsg]
  have hrange : range' 1 (s.buffer.msgCounter + 1) =
      range' 1 s.buffer.msgCounter ++ [s.buffer.msgCounter + 1] := by
    rw [range'_concat, one_mul, add_comm 1]
  have hheld := ((push_perm s.buffer.prioHeap msg).append_left
    (s.buffer.stallMsgMap.flatMap Prod.snd)).trans perm_middle
  refine .ok ⟨⟨⟨?_, h.due⟩, ⟨hstrict, hfixed, rfl, hpopped⟩, h.filed, fun m hm => ?_, h.size⟩,
    fun hwarm ho => ?_⟩
  · refine (((hheld.append_left _).trans perm_middle).map _).trans ?_
    simp only [map_cons, hcounter, hrange]
    exact (h.once.cons _).trans (perm_append_singleton _ _).symm
  · rcases mem_cons.1 (hheld.mem_iff.1 hm) with rfl | hm
    · rw [htime, hcounter]
    · exact h.times m hm
  have hle : ∀ i, 1 ≤ i → i ≤ s.buffer.msgCounter + 1 →
      (plan i).arrival ≤ (plan (s.buffer.msgCounter + 1)).arrival := by
    intro i h₁ h₂
    rcases lt_or_eq_of_le h₂ with h₂ | rfl
    · exact le_trans (ho.last i h₁ (Nat.le_of_lt_succ h₂)) (not_lt.1 hfifo)
    · exact le_rfl
  have hpush := h.push_newest hcounter htime hle
  refine ⟨fun a => ?_, ?_, fun i j hi hij hj => ?_, ?_⟩
  · have horder := ho.order a
    simp only [held, line_append, hpush] at horder ⊢
    simp only [← append_assoc] at horder ⊢
    rw [horder, hrange]
    simp [line, hcounter]
  · simp only [hpush]
    refine pairwise_append.2 ⟨ho.sorted, pairwise_singleton _ _, fun m hm m' hm' => ?_⟩
    rw [mem_singleton.1 hm', hcounter]
    exact Nat.le_succ_of_le (h.counter_le (mem_append_right _ hm)).2
  · rcases lt_or_eq_of_le hj with hj | rfl
    · exact ho.arrivals i j hi hij (Nat.le_of_lt_succ hj)
    · exact hle i hi hij
  · simpa only [hwarm, Bool.false_eq_true, if_false] using hle

/-! ## Runs -/

theorem Inv.init (h : (machine plan).init s) : Inv plan s ∧ InOrder plan s := by
  obtain ⟨params, hstrict, hfixed, rfl⟩ := h
  refine ⟨⟨⟨.refl _, by simp⟩, ⟨hstrict, hfixed, rfl, le_rfl⟩, ⟨.nil, by simp⟩, by simp [held],
    rfl⟩, fun a => rfl, .nil, ?_, ?_⟩
  all_goals simp only
  all_goals omega

theorem Inv.step {e : Ev} (h : Inv plan s) (hen : enabled plan s e) :
    Ensures Bad (fun s' => Inv plan s' ∧ (Warm s e → InOrder plan s → InOrder plan s'))
      (step plan s e) := by
  obtain ⟨t, c⟩ := e
  obtain ⟨ht, hen⟩ := hen
  have h := h.advance ht
  have hkeeps : ∀ s', Keeps plan { s with now := t } s' →
      Inv plan s' ∧ (Warm s ⟨t, c⟩ → InOrder plan s → InOrder plan s') :=
    fun s' hs' => ⟨hs'.1, fun _ ho => hs'.2 { ho with }⟩
  cases c with
  | enqueue message =>
    exact (h.enqueue message hen).imp fun s' hs' => ⟨hs'.1, fun hw ho => hs'.2 hw { ho with }⟩
  | dequeue => exact (h.dequeue hen.1 hen.2).imp hkeeps
  | stall => exact (h.stall hen).imp hkeeps
  | reanalyze addr => exact (h.reanalyze hen).imp hkeeps
  | reanalyzeAll => exact h.reanalyzeAll.imp hkeeps
  | warmup on => exact .ok ⟨{ h with tracks := { h.tracks with } }, fun _ ho => { ho with }⟩

/-- **Messages are kept, and those of an address in order.** In every run none is lost, doubled or
dequeued early; if nothing is enqueued during warm-up, each address has its messages in order. -/
theorem address_order (plan : Nat → Send) {x : Except Fault Sys} :
    ((machine plan).lts.Reachable x → Ensures Bad (Kept plan) x) ∧
      (((machine plan).under Warm).Reachable x → Ensures Bad (Ordered plan) x) := by
  constructor
  · intro hr
    have hinv := Machine.ensured (I := Inv plan) (fun s hs => (Inv.init hs).1)
      (fun s e h hen _ => (h.step hen).imp fun s' hs' => hs'.1) (Machine.unguarded hr)
    exact hinv.imp fun s h => h.toKept
  · intro hr
    have hinv := Machine.ensured (I := fun s => Inv plan s ∧ InOrder plan s) (fun s => Inv.init)
      (fun s e h hen hw => (h.1.step hen).imp fun s' hs' => ⟨hs'.1, hs'.2 hw h.2⟩) hr
    exact hinv.imp fun s h => ⟨h.1.toKept, h.2.order⟩

instance (s : Sys) : (e : Ev) → Decidable (enabled plan s e)
  | ⟨_, c⟩ => by cases c <;> dsimp only [enabled] <;> infer_instance

instance (s : Sys) : (e : Ev) → Decidable (Warm s e)
  | ⟨_, c⟩ => by cases c <;> dsimp only [Warm] <;> infer_instance

/-- Three messages of one line: the first is stalled, then the second, then both go back. -/
theorem address_order_stalled : ∃ s, ((machine fun n => ⟨64, n, 1⟩).under Warm).Reachable (.ok s) ∧
    s.dequeued.map (fun d => (d.1.msgCounter, d.2)) = [(1, 5), (2, 5), (3, 5)] ∧
      Ordered (fun n => ⟨64, n, 1⟩) s := by
  have hr := Machine.under_decided (M := machine fun n => ⟨64, n, 1⟩)
    (P := fun s e => enabled (fun n => ⟨64, n, 1⟩) s e ∧ Warm s e) (fun _ _ => id)
    [⟨1, .enqueue ⟨0, 0, 0, 0⟩⟩, ⟨2, .stall⟩, ⟨2, .enqueue ⟨0, 0, 0, 0⟩⟩,
      ⟨3, .enqueue ⟨0, 0, 0, 0⟩⟩, ⟨3, .stall⟩, ⟨4, .reanalyze 64⟩, ⟨5, .dequeue⟩, ⟨5, .dequeue⟩,
      ⟨5, .dequeue⟩]
    ⟨{ maxSize := 0, strictFifo := true }, rfl, rfl, rfl⟩ rfl
  exact ⟨_, hr, rfl, ((address_order fun n => ⟨64, n, 1⟩).2 hr).1 _ rfl⟩

/-- The delays of `warmup_reorders`. -/
def delayedFirst (n : Nat) : Send := ⟨64, n, if n = 1 then 10 else 1⟩

/-- During warm-up a message that was enqueued later arrives, and is dequeued, before one of its
line. -/
theorem warmup_reorders : ∃ s, (machine delayedFirst).lts.Reachable (.ok s) ∧
    (s.dequeued.map Prod.fst).map Message.msgCounter = [2, 1] ∧ ¬ Ordered delayedFirst s := by
  have hr := Machine.lts_decided (M := machine delayedFirst) (P := enabled delayedFirst)
    (fun _ _ => id)
    [⟨0, .warmup true⟩, ⟨1, .enqueue ⟨0, 0, 0, 0⟩⟩, ⟨2, .enqueue ⟨0, 0, 0, 0⟩⟩, ⟨3, .dequeue⟩,
      ⟨11, .dequeue⟩]
    ⟨{ maxSize := 0, strictFifo := true }, rfl, rfl, rfl⟩ rfl
  exact ⟨_, hr, rfl, fun h => absurd (h.order 64) (by decide)⟩

end Gem5Cxl.L3.AddressOrder
