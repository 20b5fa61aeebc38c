import Gem5Cxl.L2Machine.Layer

/-!
# Crossbar layers in time (`BaseXBar::Layer`, `mem/xbar.cc`)

`Layer` leaves time out. Here a layer has its `releaseEvent`, which
`occupyLayer` schedules and whose firing calls `releaseLayer`, and the current
tick. `schedule` is that of the event queue, with its assertions
(`sim/eventq.hh:758-760`).

The crossbar's `clockEdge` is a parameter. The statistics and the signal of a
drained layer are left out.
-/
namespace Gem5Cxl.L2

open Core L1

structure TimedLayer (P : Type) where
  layer : Layer P := {}
  /-- The tick for which the event is scheduled. -/
  releaseEvent : Option Nat := none
  curTick : Nat := 0
deriving DecidableEq, Repr

namespace TimedLayer

variable {P : Type}

/-- The rest of `occupyLayer`, which has found the layer busy. mirrors xbar.cc:173-175 -/
def scheduleRelease (t : TimedLayer P) (tick : Nat) : Except Fault (TimedLayer P) :=
  if tick = 0 then .error (.assertion .untilNonzero)
  else if tick < t.curTick then .error (.assertion .notInPast)
  else if t.releaseEvent.isSome then .error (.assertion .eventNotScheduled)
  else .ok { t with releaseEvent := some tick }

/-- mirrors xbar.cc:184-212 -/
def tryTiming [DecidableEq P] (t : TimedLayer P) (src : P) :
    Except Fault (TimedLayer P × Bool) := do
  let (layer, won) ← t.layer.tryTiming src
  .ok ({ t with layer }, won)

/-- mirrors xbar.cc:215-225 -/
def succeededTiming (t : TimedLayer P) (busyTime : Nat) : Except Fault (TimedLayer P) := do
  let layer ← t.layer.succeededTiming
  scheduleRelease { t with layer } busyTime

/-- mirrors xbar.cc:227-247 -/
def failedTiming (t : TimedLayer P) (src : P) (busyTime : Nat) : Except Fault (TimedLayer P) := do
  let layer ← t.layer.failedTiming src
  scheduleRelease { t with layer } busyTime

/-- The firing of the event: the layer, and the port to retry if there is one.
mirrors xbar.cc:249-271 -/
def releaseLayer (t : TimedLayer P) : Except Fault (TimedLayer P × Option P) :=
  if t.releaseEvent.isSome then .error (.assertion .eventNotScheduled)
  else do
    let (layer, port) ← t.layer.releaseLayer
    .ok ({ t with layer }, port)

/-- From the return of the retried port. mirrors xbar.cc:294-304 -/
def retryReturned (clockEdge : Nat → Nat) (t : TimedLayer P) : Except Fault (TimedLayer P) := do
  let layer ← t.layer.retryReturned
  if t.layer.state = .retry then scheduleRelease { t with layer } (clockEdge t.curTick)
  else .ok { t with layer }

/-- mirrors xbar.cc:308-331 -/
def recvRetry (t : TimedLayer P) : Except Fault (TimedLayer P × Option P) := do
  let (layer, port) ← t.layer.recvRetry
  .ok ({ t with layer }, port)

theorem scheduleRelease_ok {t : TimedLayer P} {tick : Nat} (h0 : tick ≠ 0) (hle : t.curTick ≤ tick)
    (hev : t.releaseEvent = none) :
    t.scheduleRelease tick = .ok { t with releaseEvent := some tick } := by
  simp [scheduleRelease, h0, hev, hle]

end TimedLayer

end Gem5Cxl.L2
