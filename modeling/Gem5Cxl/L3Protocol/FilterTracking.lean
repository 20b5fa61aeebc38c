import Mathlib.Data.Finset.Basic
import Mathlib.Data.Finset.Lattice.Lemmas
import Gem5Cxl.L2Machine.SnoopFilter

/-!
# Does the snoop filter remember every cache?

The crossbar snoops only the ports the filter names. A port that has a copy of a
line, or waits for one, and is not in the line's entry would be missed.

The system is the filter with the ports above it, in any interleaving. Ghost
state says which ports hold a copy of each line (`copies`) and which wait for the
response to a request of their own (`waiting`). What the ports do is the
protocol the filter assumes:

* a port obtains a copy by a response to its own request, from below or from
  another port, and has at most one request for a line on its way;
* a port that supplies a line, evicts it, or has a cache that answers its
  request, holds it. Data that waits to be supplied to another port is a copy
  until then;
* an answer without sharers says that no other port has a copy, and the supplier
  gives its own up; an eviction gives the copy up unless the block is still
  cached above;
* a copy may be given up at any time. It is given up on an invalidating snoop
  from below when no port above waits for the line.

Requests that are uncacheable and ports without caches above are part of the
runs; the filter does not track them.

* `Tracked`: a cacheable request of a snooping port that waits for a response is
  from a cache, and a port has given its copy up when its own invalidating cache
  maintenance is done.
* `remembers_caches`: in a run of tracked steps the filter forgets no port, the
  ports it names for a request or a snoop include every other port concerned, and
  it does not panic over a port's request or copy.
* `forgets_port`: the runs in which it goes wrong.
-/
namespace Gem5Cxl.L3.FilterTracking

open Core L1 L2 SnoopFilter Finset

/-- By line: the ports that hold a copy, and those that wait for a response. -/
structure Sys where
  filter : SnoopFilter
  copies : Nat → Finset PortID := fun _ => ∅
  waiting : Nat → Finset PortID := fun _ => ∅

/-- `request` is a `lookupRequest` with the `finishRequest` that follows it. -/
inductive Ev
  | request (src : PortID) (pkt : Packet) (r : Request) (willRetry : Bool)
  | snoop (pkt : Packet) (r : Request)
  | snoopResponse (rsp req : PortID) (pkt : Packet) (r : Request)
  | snoopForward (rsp : PortID) (pkt : Packet)
  | response (dst : PortID) (pkt : Packet) (r : Request)
  | giveUp (p : PortID) (line : Nat)

namespace Sys

def line (s : Sys) (pkt : Packet) : Nat := s.filter.lineAddr pkt.addr pkt.isSecure

/-- A cacheable access of a port with caches above. -/
def coherent (s : Sys) (r : Request) (p : PortID) : Bool := !r.isUncacheable && s.filter.snooping p

/-- The response to the request will pass the filter. -/
def asks (s : Sys) (src : PortID) (pkt : Packet) (r : Request) : Bool :=
  s.coherent r src && pkt.needsResponse && !pkt.cacheResponding

/-- The request gives the copy up. -/
def evicts (s : Sys) (src : PortID) (pkt : Packet) (r : Request) : Bool :=
  s.filter.allocate pkt r src && !pkt.needsResponse && !pkt.blockCached

/-- The filter after a call for a line, and the line's ports. -/
def write (s : Sys) (f : SnoopFilter) (line : Nat) (copies waiting : Finset PortID) : Sys :=
  { filter := f
    copies := Function.update s.copies line copies
    waiting := Function.update s.waiting line waiting }

end Sys

def step (s : Sys) : Ev → Except Fault Sys
  | .request src pkt r willRetry => do
    let copies := s.copies (s.line pkt)
    let waiting := s.waiting (s.line pkt)
    let (f, _) ← s.filter.lookupRequest pkt r src
    let f ← f.finishRequest willRetry pkt.addr pkt.isSecure
    return s.write f (s.line pkt)
      (if !willRetry && s.evicts src pkt r then copies.erase src else copies)
      (if !willRetry && s.asks src pkt r then insert src waiting else waiting)
  | .snoop pkt r => do
    let copies := s.copies (s.line pkt)
    let waiting := s.waiting (s.line pkt)
    let (f, ports) ← s.filter.lookupSnoop pkt r
    return s.write f (s.line pkt)
      (if pkt.cmd.isInvalidate = true ∧ waiting = ∅ then copies \ ports else copies) waiting
  | .snoopResponse rsp req pkt r => do
    let copies := s.copies (s.line pkt)
    let waiting := s.waiting (s.line pkt)
    let f ← s.filter.updateSnoopResponse pkt r rsp req
    return s.write f (s.line pkt)
      (if s.coherent r req then insert req (if pkt.hasSharers then copies else ∅) else copies)
      (if s.coherent r req then waiting.erase req else waiting)
  | .snoopForward _ pkt => do
    let f ← s.filter.updateSnoopForward pkt
    return s.write f (s.line pkt) (if pkt.hasSharers then s.copies (s.line pkt) else ∅)
      (s.waiting (s.line pkt))
  | .response dst pkt r => do
    let copies := s.copies (s.line pkt)
    let waiting := s.waiting (s.line pkt)
    let f ← s.filter.updateResponse pkt r dst
    return s.write f (s.line pkt)
      (if s.coherent r dst && !r.isCacheMaintenance then insert dst copies else copies)
      (if s.coherent r dst then waiting.erase dst else waiting)
  | .giveUp p line => .ok (s.write s.filter line ((s.copies line).erase p) (s.waiting line))

/-- What the ports may do. -/
def enabled (s : Sys) : Ev → Prop
  | .request src pkt r _ =>
    (s.asks src pkt r = true → src ∉ s.waiting (s.line pkt)) ∧
      (s.filter.allocate pkt r src = true → s.asks src pkt r = false → src ∈ s.copies (s.line pkt))
  | .snoop _ _ => True
  | .snoopResponse rsp req pkt r =>
    s.coherent r req = true → s.filter.snooping rsp = true ∧ rsp ∈ s.copies (s.line pkt) ∧
      req ∈ s.waiting (s.line pkt) ∧ (pkt.hasSharers = false → s.copies (s.line pkt) ⊆ {rsp, req})
  | .snoopForward rsp pkt => pkt.hasSharers = false → s.copies (s.line pkt) ⊆ {rsp}
  | .response dst pkt r => s.coherent r dst = true → dst ∈ s.waiting (s.line pkt)
  | .giveUp _ _ => True

/-- A request that waits for a response is from a cache; invalidating cache maintenance leaves no
copy at the port that asked for it. -/
def Tracked (s : Sys) : Ev → Prop
  | .request src pkt r _ => s.asks src pkt r = true → pkt.cmd.fromCache = true
  | .response dst pkt r =>
    s.coherent r dst = true → r.isCacheMaintenance = true → pkt.cmd.isInvalidate = true →
      dst ∉ s.copies (s.line pkt)
  | _ => True

def machine : Machine Sys Ev Fault where
  init s := s.filter.cachedLocations = ∅ ∧ (∀ line, s.copies line = ∅) ∧ ∀ line, s.waiting line = ∅
  enabled := enabled
  step := step

/-! ## What is asked -/

/-- The entry of a line; one that is not in the table is empty. -/
def item (f : SnoopFilter) (line : Nat) : SnoopItem := (f.find line).getD {}

/-- The port holds a copy of the line or waits for one. -/
def Concerned (s : Sys) (line : Nat) (p : PortID) : Prop := p ∈ s.copies line ∨ p ∈ s.waiting line

structure Remembers (s : Sys) : Prop where
  entry : ∀ line p, Concerned s line p → p ∈ (item s.filter line).holder ∪ (item s.filter line).requested
  request : ∀ src pkt r f ports, s.filter.lookupRequest pkt r src = .ok (f, ports) →
    ∀ p, p ≠ src → Concerned s (s.line pkt) p → p ∈ ports
  snoop : ∀ pkt r f ports, s.filter.lookupSnoop pkt r = .ok (f, ports) →
    ∀ p, Concerned s (s.line pkt) p → p ∈ ports

/-- A panic over a request or a copy: any but the one over the number of entries. -/
def Panics : Fault → Prop
  | .panic msg => msg ≠ "snoop filter exceeded capacity of %d cache blocks\n"
  | _ => False

variable {line : Nat} {rsp src : PortID} {i : SnoopItem}

/-! ## Entries after each call -/

section Entries

variable {f f' : SnoopFilter} {pkt : Packet} {r : Request} {line' : Nat}

/-- The calls change one entry and neither the line size nor the ports. -/
structure Writes (f f' : SnoopFilter) (line : Nat) (i : SnoopItem) : Prop where
  linesize : f'.linesize = f.linesize
  snooping : f'.snooping = f.snooping
  entry : ∀ line', item f' line' = if line' = line then i else item f line'

theorem Writes.self (f : SnoopFilter) (line : Nat) : Writes f f line (item f line) := by
  refine ⟨rfl, rfl, fun line' => ?_⟩
  split
  · rename_i h
    rw [h]
  · rfl

theorem item_of_isNull (h : i.isNull = true) : i = {} := by
  have hempty : i.requested ∪ i.holder = ∅ := by simpa [SnoopItem.isNull] using h
  obtain ⟨hr, hh⟩ := union_eq_empty.mp hempty
  cases i
  cases hr
  cases hh
  rfl

theorem item_put (f : SnoopFilter) (line line' : Nat) (i : SnoopItem) :
    item (f.put line i) line' = if line' = line then i else item f line' := by
  rw [item, find_put]
  split
  · rfl
  · rfl

/-- An empty entry may as well be in the table. -/
theorem item_eraseIfNullEntry (f : SnoopFilter) (line line' : Nat) :
    item (f.eraseIfNullEntry line) line' = item f line' := by
  rw [item, find_eraseIfNullEntry]
  split
  · rename_i h
    rw [h, item]
    cases hf : f.find line with
    | none => rfl
    | some i =>
      cases hn : i.isNull with
      | false => simp [Option.filter, hn]
      | true =>
        rw [Option.filter_some, hn]
        exact (item_of_isNull hn).symm
  · rfl

theorem eraseIfNullEntry_frame (f : SnoopFilter) (line : Nat) :
    (f.eraseIfNullEntry line).linesize = f.linesize ∧
    (f.eraseIfNullEntry line).snooping = f.snooping := by
  unfold eraseIfNullEntry
  split
  · split
    · exact ⟨rfl, rfl⟩
    · exact ⟨rfl, rfl⟩
  · exact ⟨rfl, rfl⟩

theorem writes_put (f : SnoopFilter) (line : Nat) (i : SnoopItem) :
    Writes f (f.put line i) line i :=
  ⟨rfl, rfl, fun line' => item_put f line line' i⟩

theorem Writes.erase (h : Writes f f' line i) : Writes f (f'.eraseIfNullEntry line) line i := by
  obtain ⟨hl, hs⟩ := eraseIfNullEntry_frame f' line
  exact ⟨hl.trans h.linesize, hs.trans h.snooping,
    fun line' => (item_eraseIfNullEntry f' line line').trans (h.entry line')⟩

theorem find_cases (f : SnoopFilter) (line : Nat) :
    f.find line = none ∧ item f line = {} ∨ f.find line = some (item f line) := by
  unfold item
  cases h : f.find line with
  | none => exact .inl ⟨rfl, rfl⟩
  | some i => exact .inr rfl

variable {p : PortID}

theorem mem_portToMask (h : f.snooping p = true) : f.portToMask p = {p} := by
  rw [portToMask, if_pos h]

theorem portToMask_subset (f : SnoopFilter) (p : PortID) : f.portToMask p ⊆ {p} := by
  rw [portToMask]
  split
  · exact Finset.Subset.refl _
  · exact empty_subset _

theorem inter_portToMask (h : f.snooping p = true) {ps : Finset PortID} (hp : p ∈ ps) :
    ps ∩ f.portToMask p ≠ ∅ := by
  rw [mem_portToMask h]
  exact ne_empty_of_mem (mem_inter.mpr ⟨hp, mem_singleton_self p⟩)

section Line

variable {line : Nat} (hline : f.lineAddr pkt.addr pkt.isSecure = line)
include hline

/-- The request, looked up and finished: its line has the new entry, or the old one if the request
has to be retried. -/
theorem lookupRequest_spec {bad : Fault → Prop} {P : SnoopItem → Prop}
    (hnew : Ensures bad P (f.newItem pkt r src (item f line))) :
    Ensures bad
      (fun a => a.2 = ((item f line).holder ∪ (item f line).requested) \ f.portToMask src ∧
      ∃ i, P i ∧ ∀ w, ∃ f', a.1.finishRequest w pkt.addr pkt.isSecure = .ok f' ∧
        Writes f f' line (if w then item f line else i)) (f.lookupRequest pkt r src) := by
  unfold lookupRequest
  simp only [hline, ensures_ite, ensures_ok]
  refine ⟨fun hmiss => ?_, fun _ => hnew.bind fun i hi => .ok ⟨rfl, i, hi, fun w => ?_⟩⟩
  · have hitem : item f line = {} := by rw [item, hmiss.1]; rfl
    rw [newItem, hmiss.2] at hnew
    refine ⟨by simp [hitem], item f line, hnew.1 _ rfl, fun w => ⟨_, rfl, ?_⟩⟩
    rw [ite_self]
    have hself := Writes.self f line
    exact ⟨rfl, rfl, hself.entry⟩
  · refine ⟨_, if_pos hline.symm, .erase ?_⟩
    cases w with
    | false => exact ⟨rfl, rfl, fun line' => item_put f line line' i⟩
    | true =>
      refine ⟨rfl, rfl, fun line' => ?_⟩
      rw [if_pos rfl, item_put]
      split
      · rfl
      · rename_i hne
        exact (item_put f line line' i).trans (if_neg hne)

theorem lookupSnoop_spec :
    Ensures Panics (fun a => a.2 = (item f line).holder ∪ (item f line).requested ∧
      Writes f a.1 line (if pkt.cmd.isInvalidate = true ∧ (item f line).requested = ∅ then
        { item f line with holder := ∅ } else item f line)) (f.lookupSnoop pkt r) := by
  unfold lookupSnoop
  simp only [hline, ensures_ite, ensures_error]
  refine ⟨fun _ => id, fun _ => ?_⟩
  obtain ⟨hfind, hitem⟩ | hfind := find_cases f line
  · simp only [hfind, ensures_ite, ensures_error, ensures_ok]
    refine ⟨fun _ => by simp [Panics], fun _ => ⟨by rw [hitem]; rfl, ?_⟩⟩
    rw [hitem, ite_self]
    exact hitem ▸ .self f line
  · simp only [hfind, ensures_ite, ensures_error, ensures_ok]
    refine ⟨fun _ => id, fun _ => ⟨fun hclear => ⟨trivial, ?_⟩, fun hkeep => ⟨trivial, ?_⟩⟩⟩
    · rw [if_pos hclear]
      exact (writes_put f line _).erase
    · rw [if_neg hkeep]
      exact .self f line

theorem updateSnoopForward_spec : Ensures Panics (fun f' =>
    Writes f f' line (if pkt.hasSharers then item f line else { item f line with holder := ∅ }))
    (f.updateSnoopForward pkt) := by
  unfold updateSnoopForward
  simp only [hline, ensures_ite, ensures_error]
  refine ⟨fun _ => id, fun _ => ⟨fun _ => id, fun _ => ?_⟩⟩
  obtain ⟨hfind, hitem⟩ | hfind := find_cases f line
  · simp only [hfind, ensures_ok]
    rw [hitem, ite_self]
    exact hitem ▸ .self f line
  · simp only [hfind, ensures_ite, ensures_ok]
    refine ⟨fun hlone => ?_, fun hshared => ?_⟩
    · rw [hlone]
      exact (writes_put f line _).erase
    · rw [Bool.not_eq_false] at hshared
      rw [hshared]
      exact .self f line

/-- A snoop response to a request the filter does not track passes it by. -/
theorem updateSnoopResponse_spec {req : PortID}
    (h : ¬ (r.isUncacheable = true ∨ f.snooping req = false) → f.snooping rsp = true ∧
      rsp ∈ (item f line).holder ∧ req ∈ (item f line).requested) :
    Ensures Panics (fun f' => (r.isUncacheable = true ∨ f.snooping req = false → f' = f) ∧
      (¬ (r.isUncacheable = true ∨ f.snooping req = false) →
        Writes f f' line (answeredItem pkt (f.portToMask req) (item f line))))
      (f.updateSnoopResponse pkt r rsp req) := by
  unfold updateSnoopResponse
  simp only [hline, ensures_ite, ensures_error, ensures_ok]
  refine ⟨fun _ => id, fun _ => ⟨fun _ => id, fun _ => ⟨fun hother => ⟨fun _ => trivial, absurd hother⟩, fun hown => ?_⟩⟩⟩
  obtain ⟨hrsp, hholds, hwaits⟩ := h hown
  have hreq : f.snooping req = true := by simpa using (not_or.mp hown).2
  refine ⟨fun hno => absurd hno (inter_portToMask hrsp hholds), fun _ =>
    ⟨fun hno => absurd hno (inter_portToMask hreq hwaits), fun _ => ⟨fun _ => id, fun _ => ⟨fun _ => id, fun _ => ?_⟩⟩⟩⟩
  exact ⟨fun hother => absurd hother hown, fun _ => writes_put f line _⟩

/-- The entry once port `p` has its response. -/
def respondedItem (pkt : Packet) (r : Request) (mask : Finset PortID) (i : SnoopItem) : SnoopItem :=
  ⟨i.requested \ mask,
    if r.isCacheMaintenance then if pkt.cmd.isInvalidate then i.holder \ mask else i.holder
    else i.holder ∪ mask⟩

theorem updateResponse_spec
    (h : ¬ (r.isUncacheable = true ∨ f.snooping p = false) → p ∈ (item f line).requested) :
    Ensures Panics (fun f' => (r.isUncacheable = true ∨ f.snooping p = false → f' = f) ∧
      (¬ (r.isUncacheable = true ∨ f.snooping p = false) →
        Writes f f' line
          (respondedItem pkt r (f.portToMask p) (item f line)))) (f.updateResponse pkt r p) := by
  unfold updateResponse
  simp only [hline, ensures_ite, ensures_error, ensures_ok]
  refine ⟨fun _ => id, fun _ => ⟨fun hother => ⟨fun _ => trivial, absurd hother⟩, fun hown => ?_⟩⟩
  have hp : f.snooping p = true := by simpa using (not_or.mp hown).2
  have hwaits := h hown
  obtain ⟨-, hitem⟩ | hfind := find_cases f line
  · rw [hitem] at hwaits
    cases hwaits
  · simp only [hfind, ensures_ite, ensures_error, ensures_ok, hown, not_false_eq_true, forall_true_left, false_imp_iff, true_and]
    refine ⟨fun hno => absurd hno (inter_portToMask hp hwaits), fun _ =>
      ⟨fun hclean => ?_, fun hdata => ⟨fun _ => id, fun _ => ?_⟩⟩⟩
    · rw [respondedItem, if_pos hclean]
      exact (writes_put f line _).erase
    · rw [respondedItem, if_neg hdata]
      exact writes_put f line _

end Line

end Entries

/-! ## The entry after a request -/

section Requests

variable {s : Sys} {src : PortID} {pkt : Packet} {r : Request}

theorem allocate_iff : s.filter.allocate pkt r src = true ↔
    s.coherent r src = true ∧ pkt.cmd.fromCache = true := by
  rw [allocate, Sys.coherent, Bool.and_eq_true]

/-- A tracked request that follows the rules panics over nothing, and changes the entry as it
changes the ports. -/
theorem newItem_spec (hasks : s.asks src pkt r = true → pkt.cmd.fromCache = true)
    (hfree : s.asks src pkt r = true → src ∉ i.requested)
    (hholds : s.filter.allocate pkt r src = true → s.asks src pkt r = false → src ∈ i.holder) :
    Ensures Panics
      (fun i' => i' = if s.asks src pkt r then { i with requested := insert src i.requested }
      else if s.evicts src pkt r then { i with holder := i.holder.erase src } else i)
      (s.filter.newItem pkt r src i) := by
  rw [newItem]
  cases halloc : s.filter.allocate pkt r src with
  | false =>
    have hno : s.asks src pkt r = false := by
      cases h : s.asks src pkt r with
      | false => rfl
      | true =>
        have hcoherent : s.coherent r src = true := by
          simp only [Sys.asks, Bool.and_eq_true] at h
          exact h.1.1
        exact absurd (allocate_iff.mpr ⟨hcoherent, hasks h⟩) (by simp [halloc])
    refine .ok ?_
    simp [hno, Sys.evicts, halloc]
  | true =>
    have hcoherent := (allocate_iff.mp halloc).1
    have hsnoops : s.filter.snooping src = true := by
      simp only [Sys.coherent, Bool.and_eq_true] at hcoherent
      exact hcoherent.2
    have hin (hno : s.asks src pkt r = false) : i.holder ∩ {src} ≠ ∅ :=
      mem_portToMask hsnoops ▸ inter_portToMask hsnoops (hholds halloc hno)
    rw [if_pos rfl, requestItem, mem_portToMask hsnoops]
    simp only [ensures_ite, ensures_error, ensures_ok]
    refine ⟨fun hneeds => ⟨fun hresp => ?_, fun hresp => ?_⟩, fun hneeds => ⟨fun _ => id, fun _ => ?_⟩⟩
    · have hyes : s.asks src pkt r = true := by simp [Sys.asks, hcoherent, hneeds, hresp]
      refine ⟨absurd (inter_singleton_of_notMem (hfree hyes)), fun _ => ?_⟩
      rw [if_pos hyes, union_singleton]
    · have hno : s.asks src pkt r = false := by simp [Sys.asks, hresp]
      refine ⟨fun hnone => absurd hnone (hin hno), fun _ => ?_⟩
      simp [hno, Sys.evicts, hneeds]
    · have hno : s.asks src pkt r = false := by simp [Sys.asks, hneeds]
      refine ⟨fun hnone => absurd hnone (hin hno), fun _ => ⟨fun hcached => ?_, fun hcached => ?_⟩⟩
      · simp [hno, Sys.evicts, halloc, hneeds, hcached, sdiff_singleton_eq_erase]
      · simp [hno, Sys.evicts, hcached]

end Requests

/-! ## The invariant -/

/-- Every copy is at a holder, and the ports that wait are those that requested. -/
structure Inv (s : Sys) : Prop where
  copies : ∀ line, s.copies line ⊆ (item s.filter line).holder
  waiting : ∀ line, (item s.filter line).requested = s.waiting line

section Steps

variable {s s' : Sys} {f : SnoopFilter} {pkt : Packet} {r : Request}

theorem Inv.write {copies waiting : Finset PortID} (h : Inv s)
    (hw : Writes s.filter f line i) (hcopies : copies ⊆ i.holder)
    (hwaiting : i.requested = waiting) :
    Inv (s.write f line copies waiting) := by
  constructor
  · intro line'
    simp only [Sys.write, hw.entry line', Function.update_apply]
    split
    · exact hcopies
    · exact h.copies line'
  · intro line'
    simp only [Sys.write, hw.entry line', Function.update_apply]
    split
    · exact hwaiting
    · exact h.waiting line'

theorem ensures_request {w : Bool} (h : Inv s) (he : enabled s (.request src pkt r w))
    (hg : Tracked s (.request src pkt r w)) :
    Ensures Panics Inv (step s (.request src pkt r w)) := by
  have hcopies := h.copies (s.line pkt)
  have hwaiting := h.waiting (s.line pkt)
  have hnew := newItem_spec hg (hwaiting.symm ▸ he.1)
    fun halloc hno => hcopies (he.2 halloc hno)
  refine (lookupRequest_spec rfl hnew).bind fun a ⟨_, i, hi, hfin⟩ => ?_
  obtain ⟨f', hfinish, hw⟩ := hfin w
  simp only [hfinish, ok_bind]
  refine .ok (h.write hw ?_ ?_)
  · cases w with
    | true => exact hcopies
    | false =>
      rw [hi]
      cases hasks : s.asks src pkt r with
      | true =>
        have hno : s.evicts src pkt r = false := by
          simp only [Sys.asks, Bool.and_eq_true] at hasks
          simp [Sys.evicts, hasks.1.2]
        simpa [hno] using hcopies
      | false =>
        cases hevicts : s.evicts src pkt r with
        | true => exact erase_subset_erase src hcopies
        | false => exact hcopies
  · cases w with
    | true => exact hwaiting
    | false =>
      rw [hi]
      cases hasks : s.asks src pkt r with
      | true => exact congrArg (insert src) hwaiting
      | false =>
        cases hevicts : s.evicts src pkt r with
        | true | false => exact hwaiting

theorem ensures_snoop (h : Inv s) : Ensures Panics Inv (step s (.snoop pkt r)) := by
  have hcopies := h.copies (s.line pkt)
  have hwaiting := h.waiting (s.line pkt)
  refine (lookupSnoop_spec (rfl : _ = s.line pkt)).bind fun a ⟨hports, hw⟩ => .ok (h.write hw ?_ ?_)
  · rw [hports, hwaiting]
    split
    · -- every copy is at a port that was sent the snoop
      rw [subset_empty, sdiff_eq_empty_iff_subset]
      exact hcopies.trans subset_union_left
    · exact hcopies
  · split
    · exact hwaiting
    · exact hwaiting

variable {p : PortID}

theorem coherent_iff :
    s.coherent r p = true ↔ ¬ (r.isUncacheable = true ∨ s.filter.snooping p = false) := by
  simp [Sys.coherent]

theorem not_coherent_iff :
    s.coherent r p = false ↔ r.isUncacheable = true ∨ s.filter.snooping p = false := by
  simp [Sys.coherent, or_iff_not_imp_left]

theorem snooping_of_coherent (h : s.coherent r p = true) : s.filter.snooping p = true := by
  simpa using (not_or.mp (coherent_iff.mp h)).2

theorem ensures_snoopResponse {req : PortID} (h : Inv s)
    (he : enabled s (.snoopResponse rsp req pkt r)) :
    Ensures Panics Inv (step s (.snoopResponse rsp req pkt r)) := by
  have hcopies := h.copies (s.line pkt)
  have hwaiting := h.waiting (s.line pkt)
  refine (updateSnoopResponse_spec (rfl : _ = s.line pkt) fun hown => ?_).bind fun f' ⟨hother, hw⟩ => .ok ?_
  · obtain ⟨hsnoops, hholds, hwaits, -⟩ := he (coherent_iff.mpr hown)
    exact ⟨hsnoops, hcopies hholds, hwaiting.symm ▸ hwaits⟩
  cases hcoherent : s.coherent r req with
  | false =>
    rw [hother (not_coherent_iff.mp hcoherent)]
    exact h.write (.self _ _) hcopies hwaiting
  | true =>
    have hw := hw (coherent_iff.mp hcoherent)
    rw [answeredItem, mem_portToMask (snooping_of_coherent hcoherent)] at hw
    refine h.write hw ?_ ?_
    · rw [union_singleton]
      refine insert_subset_insert req ?_
      split
      · exact hcopies
      · exact empty_subset _
    · rw [if_pos rfl, ← hwaiting, sdiff_singleton_eq_erase]

theorem ensures_snoopForward (h : Inv s) : Ensures Panics Inv (step s (.snoopForward rsp pkt)) := by
  refine (updateSnoopForward_spec rfl).bind fun f' hw => .ok (h.write hw ?_ ?_)
  · split
    · exact h.copies (s.line pkt)
    · exact empty_subset _
  · split
    · exact h.waiting (s.line pkt)
    · exact h.waiting (s.line pkt)

theorem ensures_response {dst : PortID} (h : Inv s) (he : enabled s (.response dst pkt r))
    (hg : Tracked s (.response dst pkt r)) : Ensures Panics Inv (step s (.response dst pkt r)) := by
  have hcopies := h.copies (s.line pkt)
  have hwaiting := h.waiting (s.line pkt)
  refine (updateResponse_spec (rfl : _ = s.line pkt) fun hown => ?_).bind fun f' ⟨hother, hw⟩ => .ok ?_
  · exact hwaiting.symm ▸ he (coherent_iff.mpr hown)
  cases hcoherent : s.coherent r dst with
  | false =>
    rw [hother (not_coherent_iff.mp hcoherent)]
    exact h.write (.self _ _) hcopies hwaiting
  | true =>
    have hw := hw (coherent_iff.mp hcoherent)
    rw [respondedItem, mem_portToMask (snooping_of_coherent hcoherent)] at hw
    refine h.write hw ?_ ?_
    · cases hclean : r.isCacheMaintenance with
      | false => simpa [union_singleton] using insert_subset_insert dst hcopies
      | true =>
        cases hinv : pkt.cmd.isInvalidate with
        | false => exact hcopies
        | true =>
          -- the port has no copy left
          have hgone : dst ∉ s.copies (s.line pkt) := hg hcoherent hclean hinv
          exact subset_sdiff.mpr ⟨hcopies, disjoint_singleton_right.mpr hgone⟩
    · rw [if_pos rfl, ← hwaiting, sdiff_singleton_eq_erase]

theorem ensures_step (s : Sys) (e : Ev) (h : Inv s) (he : enabled s e) (hg : Tracked s e) :
    Ensures Panics Inv (step s e) := by
  cases e with
  | request src pkt r w => exact ensures_request h he hg
  | snoop pkt r => exact ensures_snoop h
  | snoopResponse rsp req pkt r => exact ensures_snoopResponse h he
  | snoopForward rsp pkt => exact ensures_snoopForward h
  | response dst pkt r => exact ensures_response h he hg
  | giveUp p line =>
    exact .ok (h.write (.self _ _) ((erase_subset p _).trans (h.copies line)) (h.waiting line))

theorem Inv.remembers (h : Inv s) : Remembers s := by
  have hentry : ∀ line p, Concerned s line p →
      p ∈ (item s.filter line).holder ∪ (item s.filter line).requested := by
    intro line p hp
    rcases hp with hcopy | hwaits
    · exact mem_union_left _ (h.copies line hcopy)
    · exact mem_union_right _ ((h.waiting line).symm ▸ hwaits)
  refine ⟨hentry, ?_, ?_⟩
  · intro src pkt r f ports hlookup p hne hp
    obtain ⟨hports, -⟩ : ports = _ ∧ _ := (lookupRequest_spec rfl
      ⟨fun _ _ => trivial, fun e _ => not_false⟩).1 _ hlookup
    rw [hports]
    refine mem_sdiff.mpr ⟨hentry _ p hp, fun hmask => hne ?_⟩
    exact mem_singleton.mp (portToMask_subset _ src hmask)
  · intro pkt r f ports hlookup p hp
    obtain ⟨hports, -⟩ : ports = _ ∧ _ := (lookupSnoop_spec rfl).1 _ hlookup
    exact hports ▸ hentry _ p hp

end Steps

/-- **The filter forgets no port.** In a run of tracked steps, every port that holds a copy
of a line or waits for one is in the line's entry and among the ports to snoop, and no call
panics over it. -/
theorem remembers_caches {x : Except Fault Sys} (hr : (machine.under Tracked).Reachable x) :
    (∀ s, x = .ok s → Remembers s) ∧ ∀ e, x = .error e → ¬ Panics e := by
  have hinit : ∀ s, machine.init s → Inv s := by
    rintro s ⟨htable, hcopies, hwaiting⟩
    have hempty : ∀ line, item s.filter line = {} := by
      intro line
      rw [item, find, htable]
      rfl
    refine ⟨fun line => ?_, fun line => ?_⟩
    · rw [hcopies line]
      exact empty_subset _
    · rw [hempty line, hwaiting line]
  obtain ⟨hinv, hfault⟩ := Machine.ensured hinit ensures_step hr
  exact ⟨fun s hs => (hinv s hs).remembers, hfault⟩

instance (s : Sys) (e : Ev) : Decidable (enabled s e) := by
  cases e <;> dsimp only [enabled] <;> infer_instance

instance (s : Sys) (e : Ev) : Decidable (Tracked s e) := by
  cases e <;> dsimp only [Tracked] <;> infer_instance

def start : Sys := { filter := { linesize := 64, maxEntryCount := 8, snooping := fun _ => true } }

/-- Port 0 reads a line and port 1 gets it from there; then port 0 asks for it again. -/
theorem remembers_caches_shared : ∃ s, (machine.under Tracked).Reachable (.ok s) ∧
    s.copies 0 = {0, 1} ∧ s.waiting 0 = {0} ∧ Remembers s := by
  have hr := fun {y} => Machine.under_decided (M := machine)
    (P := fun s e => enabled s e ∧ Tracked s e) (fun _ _ => id)
    [.request 0 { req := 0, cmd := .readSharedReq, addr := 0 } {} false,
      .response 0 { req := 0, cmd := .readResp, addr := 0 } {},
      .request 1 { req := 1, cmd := .readSharedReq, addr := 0 } {} false,
      .snoopResponse 0 1 { req := 1, cmd := .readResp, addr := 0, hasSharers := true, cacheResponding := true } {},
      .request 0 { req := 2, cmd := .upgradeReq, addr := 0 } {} false]
    (y := y) (s := start) ⟨rfl, fun _ => rfl, fun _ => rfl⟩
  exact ⟨_, hr rfl, by decide, by decide, (remembers_caches (hr rfl)).1 _ rfl⟩

/-- A request that is not from a cache is not tracked: its port waits and is not in the
entry, and if the line has an entry when the response comes, the filter panics. A port that
keeps its copy through its own invalidating cache maintenance is forgotten. -/
theorem forgets_port :
    (∃ s, machine.lts.Reachable (.ok s) ∧ Concerned s 0 0 ∧ ¬ Remembers s) ∧
    machine.lts.Reachable (.error (.panic "SF value %x.%x missing request bit\n")) ∧
    ∃ s, machine.lts.Reachable (.ok s) ∧ s.copies 0 = {0} ∧ s.filter.find 0 = none ∧
      ¬ Remembers s := by
  have hr := fun ls {y} => Machine.lts_decided (M := machine) (P := enabled) (fun _ _ => id) ls
    (y := y) (s := start) ⟨rfl, fun _ => rfl, fun _ => rfl⟩
  refine ⟨⟨_, hr [.request 0 { req := 0, cmd := .readReq, addr := 0 } {} false] rfl, ?_, fun h => ?_⟩,
    hr [.request 0 { req := 0, cmd := .readReq, addr := 0 } {} false,
      .request 1 { req := 1, cmd := .readSharedReq, addr := 0 } {} false,
      .response 0 { req := 0, cmd := .readResp, addr := 0 } {}] rfl,
    ⟨_, hr [.request 0 { req := 0, cmd := .readSharedReq, addr := 0 } {} false,
      .response 0 { req := 0, cmd := .readResp, addr := 0 } {},
      .request 0 { req := 1, cmd := .cleanInvalidReq, addr := 0 } { isCacheMaintenance := true } false,
      .response 0 { req := 1, cmd := .cleanInvalidResp, addr := 0 } { isCacheMaintenance := true }] rfl,
      by decide, rfl, fun h => ?_⟩⟩
  · exact .inr (by decide)
  · exact absurd (h.entry 0 0 (.inr (by decide))) (by decide)
  · exact absurd (h.entry 0 0 (.inl (by decide))) (by decide)

end Gem5Cxl.L3.FilterTracking
