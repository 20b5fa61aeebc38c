import Mathlib.Data.Fintype.Card
import Gem5Cxl.Core.Lts
import Gem5Cxl.L1Message.Packet

/-!
# The event queue (`sim/eventq.cc`, `sim/eventq.hh`)

Events of one tick and priority form a bin, a stack linked by `nextInBin`. The
tops of the bins form a list linked by `nextBin`, in increasing order. The
`nextBin` of an event below the top of its bin is stale; it is set again when
the event comes to the top.

* `insert`, `remove`, `serviceOne`: as the source links and unlinks events.
* `insertAt`, `removeEvent`: what `schedule`, `deschedule` and `reschedule` do
  with them once their assertions have passed.

An event is an identifier, and each field of its class is a map. The loops run
on fuel, as much as there are events: a walk that outlasts it is in a cycle
(`Fault.endless`). `serviceOne` returns the event it takes; what `process` does
then are further operations on the queue. The deletion of managed events, the
exit event, the asynchronous queue and locking are left out.
-/
namespace Gem5Cxl.L2

open Core L1 Function

structure EventQueue (ι : Type) where
  head : Option ι
  curTick : Nat
  -- the fields of the events; `queue` says whether an event's queue is this one
  nextBin : ι → Option ι
  nextInBin : ι → Option ι
  when : ι → Nat
  priority : ι → Int
  queue : ι → Bool
  scheduled : ι → Bool
  squashed : ι → Bool

namespace EventQueue

variable {ι : Type} (q : EventQueue ι)

/-- `operator<`. mirrors eventq.hh:523-527 -/
def lt (l r : ι) : Prop :=
  q.when l < q.when r ∨ q.when l = q.when r ∧ q.priority l < q.priority r

/-- `operator<=`. mirrors eventq.hh:543-547 -/
def le (l r : ι) : Prop :=
  q.when l < q.when r ∨ q.when l = q.when r ∧ q.priority l ≤ q.priority r

/-- `operator==`; `operator!=` is its negation. mirrors eventq.hh:563-575 -/
def eq (l r : ι) : Prop := q.when l = q.when r ∧ q.priority l = q.priority r

instance (l r : ι) : Decidable (q.lt l r) := inferInstanceAs (Decidable (_ ∨ _))
instance (l r : ι) : Decidable (q.le l r) := inferInstanceAs (Decidable (_ ∨ _))
instance (l r : ι) : Decidable (q.eq l r) := inferInstanceAs (Decidable (_ ∧ _))

variable [DecidableEq ι]

/-- It returns `event`. mirrors eventq.cc:90-109 -/
def insertBefore (event : ι) (curr : Option ι) : EventQueue ι :=
  match curr with
  | none =>
    { q with
      nextBin := update q.nextBin event none
      nextInBin := update q.nextInBin event none }
  | some c =>
    if q.lt event c then
      { q with
        nextBin := update q.nextBin event (some c)
        nextInBin := update q.nextInBin event none }
    else
      { q with
        nextBin := update q.nextBin event (q.nextBin c)
        nextInBin := update q.nextInBin event (some c) }

/-- The loop of `insert` and of `remove` over the bins below `event`; the results are `prev` and
`curr`. mirrors eventq.cc:150-153, 209-212 -/
def findBin (event : ι) : Nat → ι → Option ι → Except Fault (ι × Option ι)
  | _, prev, none => .ok (prev, none)
  | 0, _, some _ => .error .endless
  | fuel + 1, prev, some curr =>
    if q.lt curr event then findBin event fuel curr (q.nextBin curr)
    else .ok (prev, some curr)

/-- The loop of `removeItem`; the result is `curr`, and `event` is next to it.
mirrors eventq.cc:178-184 -/
def findInBin (event : ι) : Nat → ι → Option ι → Except Fault ι
  | _, _, none => .error (.panic "event not found!")
  | 0, _, some _ => .error .endless
  | fuel + 1, curr, some next =>
    if event = next then .ok curr
    else findInBin event fuel next (q.nextInBin next)

/-- It returns the new top of the bin, or the next bin. mirrors eventq.cc:160-189 -/
def removeItem [Fintype ι] (event top : ι) : Except Fault (EventQueue ι × Option ι) :=
  if event = top then
    match q.nextInBin top with
    | none => .ok (q, q.nextBin top)
    | some next =>
      .ok ({ q with nextBin := update q.nextBin next (q.nextBin top) }, some next)
  else do
    let curr ← q.findInBin event (Fintype.card ι) top (q.nextInBin top)
    .ok ({ q with nextInBin := update q.nextInBin curr (q.nextInBin event) }, some top)

/-- mirrors eventq.cc:137-158 -/
def insert [Fintype ι] (event : ι) : Except Fault (EventQueue ι) :=
  match q.head with
  | none => .ok { q.insertBefore event none with head := some event }
  | some head =>
    if q.le event head then .ok { q.insertBefore event (some head) with head := some event }
    else do
      let (prev, curr) ← q.findBin event (Fintype.card ι) head (q.nextBin head)
      let q := q.insertBefore event curr
      .ok { q with nextBin := update q.nextBin prev (some event) }

/-- mirrors eventq.cc:191-221 -/
def remove [Fintype ι] (event : ι) : Except Fault (EventQueue ι) :=
  match q.head with
  | none => .error (.panic "event not found!")
  | some head =>
    if !q.queue event then .error (.assertion .eventOnQueue)
    else if q.eq head event then do
      let (q, top) ← q.removeItem event head
      .ok { q with head := top }
    else do
      let (prev, curr) ← q.findBin event (Fintype.card ι) head (q.nextBin head)
      match curr with
      | none => .error (.panic "event not found!")
      | some curr =>
        if ¬ q.eq curr event then .error (.panic "event not found!")
        else do
          let (q, top) ← q.removeItem event curr
          .ok { q with nextBin := update q.nextBin prev top }

/-- mirrors eventq.cc:223-262 -/
def serviceOne : Except Fault (EventQueue ι × ι) :=
  match q.head with
  | none => .error .nullPointer
  | some event =>
    let q := { q with scheduled := update q.scheduled event false }
    let q :=
      match q.nextInBin event with
      | some next =>
        { q with nextBin := update q.nextBin next (q.nextBin event), head := some next }
      | none => { q with head := q.nextBin event }
    let q :=
      if q.squashed event then { q with squashed := update q.squashed event false }
      else { q with curTick := q.when event }
    .ok (q, event)

/-- mirrors eventq.hh:298-305 -/
def setWhen (event : ι) (when : Nat) : EventQueue ι :=
  { q with
    when := update q.when event when
    queue := update q.queue event true }

/-- The end of `schedule`. mirrors eventq.hh:763-777 -/
def insertAt [Fintype ι] (event : ι) (when : Nat) : Except Fault (EventQueue ι) := do
  let q ← (q.setWhen event when).insert event
  .ok { q with scheduled := update q.scheduled event true }

/-- The end of `deschedule`. mirrors eventq.hh:796-799 -/
def removeEvent [Fintype ι] (event : ι) : Except Fault (EventQueue ι) := do
  let q ← q.remove event
  .ok { q with
    squashed := update q.squashed event false
    scheduled := update q.scheduled event false }

/-- mirrors eventq.hh:465 -/
def squash (event : ι) : EventQueue ι :=
  { q with squashed := update q.squashed event true }

end EventQueue

end Gem5Cxl.L2
