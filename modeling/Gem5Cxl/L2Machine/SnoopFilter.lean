import Gem5Cxl.L2Machine.Layer
import Mathlib.Data.Finset.SDiff
import Mathlib.Data.List.AList

/-!
# The snoop filter of a coherent crossbar (`SnoopFilter`)

For each cache line the filter knows which ports have asked for it
(`requested`) and which hold it (`holder`), so that the crossbar snoops only
those. A line nobody asks for or holds has no entry.

A request is announced with `lookupRequest` before the crossbar knows whether it
can send it on, and completed with `finishRequest` afterwards; if it has to be
retried, `finishRequest` puts the line's entry back as it was. Between the two
calls the filter remembers one line only, in `reqLookupResult`: an iterator into
the table (`it`) and the old value of the entry (`retryItem`). `finishRequest`
does not reset them, so what they mean later depends on who calls next.

* `lookupRequest`, `finishRequest`, `lookupSnoop`, `updateSnoopResponse`,
  `updateSnoopForward`, `updateResponse`: the calls of the crossbar.
* `Tidy`: no entry is empty; every completed call keeps it (`*_tidy`).
* `finishRequest_after_lookup`: right after the lookup of its own request,
  `finishRequest` never fails, leaves the other lines alone, and undoes the
  lookup if the request has to be retried.

All functions mirror mem/snoop_filter.cc. A mask of ports is a finite set; the
table is an association list, since its size is read. An iterator stays valid
until its entry is erased (`Iter.dangling`); using it afterwards is a fault.
Latencies and statistics are left out.
-/
namespace Gem5Cxl.L2

open Core L1

/-- mirrors snoop_filter.hh:218-222 -/
structure SnoopItem where
  requested : Finset PortID := ∅
  holder : Finset PortID := ∅
deriving DecidableEq

/-- `(requested | holder).none()`. -/
def SnoopItem.isNull (i : SnoopItem) : Bool := i.requested ∪ i.holder = ∅

/-- `reqLookupResult.it`: the end of the table, an entry of it, or an entry that
has been erased since. -/
inductive Iter | atEnd | item (line : Nat) | dangling
deriving DecidableEq

/-- `linesize` is a power of two. `snooping` is `isSnooping()` of the ports. -/
structure SnoopFilter where
  linesize : Nat
  maxEntryCount : Nat
  snooping : PortID → Bool
  cachedLocations : AList (fun _ : Nat => SnoopItem) := ∅
  it : Iter := .atEnd
  retryItem : SnoopItem := {}

namespace SnoopFilter

variable (f : SnoopFilter)

/-- The key of a line: its address, marked if the access is secure. -/
def lineAddr (addr : Nat) (secure : Bool) : Nat :=
  (addr / f.linesize * f.linesize) ||| (if secure then 1 else 0)

def find (line : Nat) : Option SnoopItem := f.cachedLocations.lookup line

def put (line : Nat) (i : SnoopItem) : SnoopFilter :=
  { f with cachedLocations := f.cachedLocations.insert line i }

/-- Erasing an entry leaves an iterator to it dangling. -/
def erase (f : SnoopFilter) (line : Nat) : SnoopFilter :=
  { f with cachedLocations := f.cachedLocations.erase line
           it := if f.it = .item line then .dangling else f.it }

/-- mirrors snoop_filter.hh:335-342 -/
def portToMask (p : PortID) : Finset PortID := if f.snooping p then {p} else ∅

/-- mirrors snoop_filter.cc:55-64 -/
def eraseIfNullEntry (line : Nat) : SnoopFilter :=
  match f.find line with
  | some i => if i.isNull then f.erase line else f
  | none => f

/-! ## Requests -/

def allocate (pkt : Packet) (r : Request) (src : PortID) : Bool :=
  !r.isUncacheable && f.snooping src && pkt.cmd.fromCache

/-- The new value of the entry. mirrors snoop_filter.cc:119-153 -/
def requestItem (pkt : Packet) (mask : Finset PortID) (i : SnoopItem) : Except Fault SnoopItem :=
  if pkt.needsResponse then
    if pkt.cacheResponding = false then
      if i.requested ∩ mask ≠ ∅ then .error (.panic "double request :( SF value %x.%x\n")
      else .ok { i with requested := i.requested ∪ mask }
    else if i.holder ∩ mask = ∅ then .error (.panic "Need to hold the value!")
    else .ok i
  else if pkt.cmd.isEviction = false then .error (.assertion .isEviction)
  else if i.holder ∩ mask = ∅ then
    .error (.panic "requestor %x is not a holder :( SF value %x.%x\n")
  else if pkt.blockCached = false then .ok { i with holder := i.holder \ mask }
  else .ok i

/-- Only requests that allocate change the entry. mirrors snoop_filter.cc:114-153 -/
def newItem (pkt : Packet) (r : Request) (src : PortID) (i : SnoopItem) :
    Except Fault SnoopItem :=
  if f.allocate pkt r src then requestItem pkt (f.portToMask src) i else .ok i

/-- The line's entry becomes `i`; the old one is remembered. -/
def lookedUp (line : Nat) (i : SnoopItem) : SnoopFilter :=
  { f.put line i with it := .item line, retryItem := (f.find line).getD {} }

/-- The filter, and the ports to snoop. mirrors snoop_filter.cc:66-157 -/
def lookupRequest (pkt : Packet) (r : Request) (src : PortID) :
    Except Fault (SnoopFilter × Finset PortID) :=
  let line := f.lineAddr pkt.addr pkt.isSecure
  let i := (f.find line).getD {}
  if f.find line = none ∧ f.allocate pkt r src = false then .ok ({ f with it := .atEnd }, ∅)
  else do
    let i' ← f.newItem pkt r src i
    .ok (f.lookedUp line i', (i.holder ∪ i.requested) \ f.portToMask src)

/-- mirrors snoop_filter.cc:159-181 -/
def finishRequest (willRetry : Bool) (addr : Nat) (secure : Bool) :
    Except Fault SnoopFilter :=
  match f.it with
  | .atEnd => .ok f
  | .dangling => .error .danglingIterator
  | .item line =>
    if line = f.lineAddr addr secure then
      .ok ((if willRetry then f.put line f.retryItem else f).eraseIfNullEntry line)
    else .error (.assertion .finishFollowsLookup)

/-! ## Snoops from below, and responses -/

/-- mirrors snoop_filter.cc:183-241 -/
def lookupSnoop (pkt : Packet) (r : Request) :
    Except Fault (SnoopFilter × Finset PortID) :=
  let line := f.lineAddr pkt.addr pkt.isSecure
  if pkt.cmd.isRequest = false then .error (.assertion .isRequest)
  else
    match f.find line with
    | none =>
      if f.cachedLocations.entries.length ≥ f.maxEntryCount then
        .error (.panic "snoop filter exceeded capacity of %d cache blocks\n")
      else .ok (f, ∅)
    | some i =>
      if (pkt.cmd.isWriteback || r.isUncacheable || pkt.cmd.isInvalidate == pkt.cmd.needsWritable ||
          r.isCacheMaintenance) = false then
        .error (.assertion .invalidateNeedsWritable)
      else if pkt.cmd.isInvalidate = true ∧ i.requested = ∅ then
        .ok ((f.put line { i with holder := ∅ }).eraseIfNullEntry line, i.holder ∪ i.requested)
      else .ok (f, i.holder ∪ i.requested)

/-- The entry once the requester has the line: unless somebody shares it, nobody
else has. mirrors snoop_filter.cc:280-294 -/
def answeredItem (pkt : Packet) (mask : Finset PortID) (i : SnoopItem) : SnoopItem :=
  ⟨i.requested \ mask, (if pkt.hasSharers then i.holder else ∅) ∪ mask⟩

/-- Port `rsp` answers a request of port `req`. mirrors snoop_filter.cc:243-298 -/
def updateSnoopResponse (pkt : Packet) (r : Request) (rsp req : PortID) :
    Except Fault SnoopFilter :=
  let line := f.lineAddr pkt.addr pkt.isSecure
  if pkt.cmd.isResponse = false then .error (.assertion .isResponse)
  else if pkt.cacheResponding = false then .error (.assertion .cacheResponding)
  else if r.isUncacheable = true ∨ f.snooping req = false then .ok f
  else
    let i := (f.find line).getD {}
    let i' := answeredItem pkt (f.portToMask req) i
    if i.holder ∩ f.portToMask rsp = ∅ then .error (.panic "SF value %x.%x does not have the line\n")
    else if i.requested ∩ f.portToMask req = ∅ then
      .error (.panic "SF value %x.%x missing the original request\n")
    else if pkt.cmd.isWriteback then .error (.assertion .notWriteback)
    else if i'.isNull then .error (.assertion .anyPort)
    else .ok (f.put line i')

/-- mirrors snoop_filter.cc:300-335 -/
def updateSnoopForward (pkt : Packet) : Except Fault SnoopFilter :=
  let line := f.lineAddr pkt.addr pkt.isSecure
  if pkt.cmd.isResponse = false then .error (.assertion .isResponse)
  else if pkt.cacheResponding = false then .error (.assertion .cacheResponding)
  else
    match f.find line with
    | none => .ok f
    | some i =>
      if pkt.hasSharers = false then .ok ((f.put line { i with holder := ∅ }).eraseIfNullEntry line)
      else .ok f

/-- mirrors snoop_filter.cc:337-389 -/
def updateResponse (pkt : Packet) (r : Request) (p : PortID) :
    Except Fault SnoopFilter :=
  let line := f.lineAddr pkt.addr pkt.isSecure
  if pkt.cmd.isResponse = false then .error (.assertion .isResponse)
  else if r.isUncacheable = true ∨ f.snooping p = false then .ok f
  else
    match f.find line with
    | none => .ok f
    | some i =>
      let requested := i.requested \ f.portToMask p
      let holder := if pkt.cmd.isInvalidate then i.holder \ f.portToMask p else i.holder
      if i.requested ∩ f.portToMask p = ∅ then .error (.panic "SF value %x.%x missing request bit\n")
      else if r.isCacheMaintenance then
        .ok ((f.put line ⟨requested, holder⟩).eraseIfNullEntry line)
      else if (⟨requested, i.holder ∪ f.portToMask p⟩ : SnoopItem).isNull then
        .error (.assertion .anyPort)
      else .ok (f.put line ⟨requested, i.holder ∪ f.portToMask p⟩)

/-! ## What the calls do to the table -/

section Table

variable {f f' : SnoopFilter} {line : Nat} {i : SnoopItem}

@[simp] theorem find_put (f : SnoopFilter) (line line' : Nat) (i : SnoopItem) :
    (f.put line i).find line' = if line' = line then some i else f.find line' := by
  unfold find put
  split
  · rename_i h
    rw [h, AList.lookup_insert]
  · rename_i h
    exact AList.lookup_insert_ne h

@[simp] theorem find_erase (f : SnoopFilter) (line line' : Nat) :
    (f.erase line).find line' = if line' = line then none else f.find line' := by
  by_cases h : line' = line
  · rw [if_pos h, h]
    exact AList.lookup_erase ..
  · rw [if_neg h]
    exact AList.lookup_erase_ne h

theorem find_eraseIfNullEntry (f : SnoopFilter) (line line' : Nat) :
    (f.eraseIfNullEntry line).find line' =
      if line' = line then (f.find line).filter (fun i => !i.isNull) else f.find line' := by
  unfold eraseIfNullEntry
  cases hf : f.find line with
  | none =>
    by_cases h : line' = line
    · simp [h, hf]
    · simp [h]
  | some i =>
    by_cases hn : i.isNull = true
    · by_cases h : line' = line
      · simp [h, hn, Option.filter]
      · simp [h, hn]
    · by_cases h : line' = line
      · simp [h, hn, hf, Option.filter]
      · simp [h, hn]

/-- No entry is empty. -/
def Tidy (f : SnoopFilter) : Prop := ∀ line i, f.find line = some i → i.isNull = false

theorem Tidy.put (h : f.Tidy) (hi : i.isNull = false) : (f.put line i).Tidy := by
  intro line' i' h'
  rw [find_put] at h'
  split at h'
  · cases h'
    exact hi
  · exact h line' i' h'

theorem Tidy.put_erase (h : f.Tidy) : ((f.put line i).eraseIfNullEntry line).Tidy := by
  intro line' i' h'
  rw [find_eraseIfNullEntry] at h'
  split at h'
  · simp only [find_put, if_true, Option.filter_eq_some_iff] at h'
    simpa using h'.2
  · rename_i hne
    rw [find_put, if_neg hne] at h'
    exact h line' i' h'

theorem tidy_of_cachedLocations (h : f.Tidy) (he : f'.cachedLocations = f.cachedLocations) :
    f'.Tidy := by
  intro line' i' h'
  unfold find at h'
  rw [he] at h'
  exact h line' i' h'

end Table

/-! ## A request and its completion -/

section Requests

variable {f f' : SnoopFilter} {pkt : Packet} {r : Request} {src : PortID} {d : Finset PortID}

/-- Everything a completed lookup did: nothing but to reset the iterator, or to
give its line a new entry and remember the old one. -/
theorem lookupRequest_ok (h : f.lookupRequest pkt r src = .ok (f', d)) :
    f' = { f with it := .atEnd } ∨ ∃ i, f' = f.lookedUp (f.lineAddr pkt.addr pkt.isSecure) i := by
  unfold lookupRequest at h
  simp only at h
  split at h
  · cases h
    exact .inl rfl
  · obtain ⟨i, -, h⟩ := bind_eq_ok.mp h
    cases h
    exact .inr ⟨i, rfl⟩

/-- What is left of a request in the table after it was looked up and finished. -/
structure Completed (f f' : SnoopFilter) (line : Nat) (willRetry : Bool) : Prop where
  tidy : f.Tidy → f'.Tidy
  others : ∀ line', line' ≠ line → f'.find line' = f.find line'
  undone : willRetry = true → f.Tidy → f'.find line = f.find line

theorem find_lookedUp (f : SnoopFilter) (line line' : Nat) (i : SnoopItem) :
    (f.lookedUp line i).find line' = if line' = line then some i else f.find line' :=
  find_put f line line' i

theorem completed_of_find {line : Nat} {i : SnoopItem} {w : Bool} (hf : ∀ line', f'.find line' =
      if line' = line then (some i).filter (fun i => !i.isNull) else f.find line')
    (hw : w = true → i = (f.find line).getD {}) : Completed f f' line w := by
  refine ⟨?_, fun line' hne => by rw [hf, if_neg hne], ?_⟩
  · intro ht line' j hj
    rw [hf] at hj
    split at hj
    · simpa using (Option.filter_eq_some_iff.mp hj).2
    · exact ht line' j hj
  · intro hretry ht
    rw [hf, if_pos rfl, hw hretry]
    cases hold : f.find line with
    | none => decide
    | some j => simp [Option.filter, ht line j hold]

/-- The call right after the lookup of its own request never fails. -/
theorem finishRequest_after_lookup (h : f.lookupRequest pkt r src = .ok (f', d)) (w : Bool) :
    ∃ f'', f'.finishRequest w pkt.addr pkt.isSecure = .ok f'' ∧
      Completed f f'' (f.lineAddr pkt.addr pkt.isSecure) w := by
  rcases lookupRequest_ok h with rfl | ⟨i, rfl⟩
  · exact ⟨_, rfl, fun ht => tidy_of_cachedLocations ht rfl, fun _ _ => rfl, fun _ _ => rfl⟩
  · -- the iterator is at the request's own line
    refine ⟨_, if_pos rfl, ?_⟩
    cases w with
    | false =>
      refine completed_of_find (i := i) (fun line' => ?_) (by simp)
      rw [if_neg (by simp), find_eraseIfNullEntry]
      simp only [find_lookedUp, if_true]
      split <;> rfl
    | true =>
      refine completed_of_find (fun line' => ?_) fun _ => rfl
      rw [find_eraseIfNullEntry]
      simp only [find_put, find_lookedUp, if_true]
      split <;> rfl

end Requests

/-! ## The other calls keep the table tidy -/

section Tidy

variable {f : SnoopFilter} {pkt : Packet} {r : Request} (ht : f.Tidy)
include ht

theorem lookupSnoop_tidy : Yields (fun a => a.1.Tidy) (f.lookupSnoop pkt r) := by
  cases hf : f.find (f.lineAddr pkt.addr pkt.isSecure) <;>
    simp [lookupSnoop, hf, ht, ht.put_erase]

theorem updateSnoopResponse_tidy {rsp req : PortID} :
    Yields Tidy (f.updateSnoopResponse pkt r rsp req) := by
  simp only [updateSnoopResponse, yields_ite, yields_ok, yields_error, implies_true, true_and]
  -- the entry that is written names the requester
  exact fun _ _ => ⟨fun _ => ht, fun _ _ _ _ hnull => ht.put (by simpa using hnull)⟩

theorem updateSnoopForward_tidy : Yields Tidy (f.updateSnoopForward pkt) := by
  cases hf : f.find (f.lineAddr pkt.addr pkt.isSecure) <;>
    simp [updateSnoopForward, hf, ht, ht.put_erase]

theorem updateResponse_tidy {p : PortID} : Yields Tidy (f.updateResponse pkt r p) := by
  cases hf : f.find (f.lineAddr pkt.addr pkt.isSecure) with
  | none => simp [updateResponse, hf, ht]
  | some i =>
    simp only [updateResponse, hf, yields_ite, yields_ok, yields_error, implies_true, true_and]
    exact fun _ => ⟨fun _ => ht, fun _ _ => ⟨fun _ => ht.put_erase, fun _ hnull => ht.put (by simpa using hnull)⟩⟩

end Tidy

end SnoopFilter

end Gem5Cxl.L2
