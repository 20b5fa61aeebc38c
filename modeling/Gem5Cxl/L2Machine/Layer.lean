import Gem5Cxl.Core.Lts
import Gem5Cxl.L1Message.Packet

/-!
# Crossbar layers (`BaseXBar::Layer`, `mem/xbar.cc`)

A crossbar has one layer for each destination port, and a packet must win its
layer before it is passed on. A layer remembers two kinds of losers:

* `waitingForLayer`: ports that were turned away because the layer was taken,
  in the order they came;
* `waitingForPeer`: the port whose packet won the layer but was refused by the
  component behind it. While it is set nobody else gets the layer, and the
  retry of that component must find it set (`recvRetry`).

A layer is offered a packet with `tryTiming`; if it says yes, the caller owes
it one of `succeededTiming` and `failedTiming`. The layer is busy from then on
until `releaseLayer`.

`retryWaiting` calls the waiting port in its middle (`sendRetry`), and that port
may call `tryTiming` before it returns. So it is cut in two: `retryWaiting`
itself is the part up to the call and says whom it calls; `retryReturned` is the
rest. Time is left out: `occupyLayer` is the test that the layer is busy.
-/
namespace Gem5Cxl.L2

open Core L1

/-- The number of a port on its side of a crossbar. -/
abbrev PortID := Nat

/-- `BaseXBar::Layer::State`. mirrors xbar.hh:203 -/
inductive LayerState | idle | busy | retry
deriving DecidableEq, Repr

/-- `P`: the ports that compete for the layer. -/
structure Layer (P : Type) where
  state : LayerState := .idle
  waitingForPeer : Option P := none
  waitingForLayer : List P := []
deriving DecidableEq, Repr

namespace Layer

variable {P : Type}

variable (l : Layer P)

/-- The test that `tryTiming` turns ports away on. -/
def taken : Bool := l.state = .busy || l.waitingForPeer.isSome

/-- mirrors xbar.cc:184-212 -/
def tryTiming [DecidableEq P] (l : Layer P) (src : P) : Except Fault (Layer P × Bool) :=
  if l.taken then
    if src ∈ l.waitingForLayer then .error (.assertion .notWaitingForLayer)
    else .ok ({ l with waitingForLayer := l.waitingForLayer ++ [src] }, false)
  else .ok ({ l with state := .busy }, true)

/-- mirrors xbar.cc:165-182 -/
def occupyLayer : Except Fault (Layer P) :=
  if l.state = .busy then .ok l else .error (.assertion .layerBusy)

/-- mirrors xbar.cc:214-225 -/
def succeededTiming : Except Fault (Layer P) :=
  if l.state = .busy then l.occupyLayer else .error (.assertion .layerBusy)

/-- mirrors xbar.cc:227-247 -/
def failedTiming (src : P) : Except Fault (Layer P) :=
  if l.waitingForPeer.isSome then .error (.assertion .waitingForPeerNull)
  else if l.state = .busy then occupyLayer { l with waitingForPeer := some src }
  else .error (.assertion .layerBusy)

/-- Up to the call of the waiting port. mirrors xbar.cc:273-292 -/
def retryWaiting : Except Fault (Layer P × P) :=
  match l.waitingForLayer with
  | [] => .error (.assertion .waitingForLayerNonempty)
  | p :: ps =>
    if l.state = .idle then .ok ({ l with state := .retry, waitingForLayer := ps }, p)
    else .error (.assertion .layerIdle)

/-- From the return of that call: if the port did not use it, the layer is held
until the next cycle. mirrors xbar.cc:294-304 -/
def retryReturned : Except Fault (Layer P) :=
  if l.state = .retry then occupyLayer { l with state := .busy } else .ok l

/-- The layer, and the port to retry if there is one. mirrors xbar.cc:249-271 -/
def releaseLayer : Except Fault (Layer P × Option P) :=
  if l.state = .busy then
    if l.waitingForLayer ≠ [] ∧ l.waitingForPeer = none then do
      let (l', p) ← retryWaiting { l with state := .idle }
      .ok (l', some p)
    else .ok ({ l with state := .idle }, none)
  else .error (.assertion .layerBusy)

/-- The component behind the layer is ready again. mirrors xbar.cc:306-331 -/
def recvRetry : Except Fault (Layer P × Option P) :=
  match l.waitingForPeer with
  | none => .error (.assertion .waitingForPeerSet)
  | some src =>
    let l' := { l with waitingForLayer := src :: l.waitingForLayer, waitingForPeer := none }
    if l.state = .idle then do
      let (l'', p) ← l'.retryWaiting
      .ok (l'', some p)
    else if l.state = .busy then .ok (l', none)
    else .error (.assertion .layerBusy)

/-! ## What the calls do -/

variable {l l' : Layer P} {src : P}

theorem tryTiming_lost [DecidableEq P] (h : l.tryTiming src = .ok (l', false)) :
    l.taken = true ∧ l' = { l with waitingForLayer := l.waitingForLayer ++ [src] } := by
  unfold tryTiming at h
  split at h
  · rename_i ht
    split at h
    · cases h
    · cases h
      exact ⟨ht, rfl⟩
  · cases h

theorem tryTiming_won [DecidableEq P] (h : l.tryTiming src = .ok (l', true)) :
    l.taken = false ∧ l' = { l with state := .busy } := by
  unfold tryTiming at h
  split at h
  · split at h <;> cases h
  · rename_i ht
    cases h
    exact ⟨by simpa using ht, rfl⟩

/-- The retry of a component finds its port waiting exactly if a packet of it
was recorded as refused. -/
theorem recvRetry_unset (h : l.waitingForPeer = none) :
    l.recvRetry = .error (.assertion .waitingForPeerSet) := by
  unfold recvRetry
  rw [h]

theorem releaseLayer_retry {p : P} {ps : List P} (hb : l.state = .busy)
    (hl : l.waitingForLayer = p :: ps) (hn : l.waitingForPeer = none) :
    l.releaseLayer = .ok ({ l with state := .retry, waitingForLayer := ps }, some p) := by
  simp [releaseLayer, retryWaiting, hb, hl, hn]

theorem releaseLayer_idle (hb : l.state = .busy)
    (h : l.waitingForLayer = [] ∨ l.waitingForPeer ≠ none) :
    l.releaseLayer = .ok ({ l with state := .idle }, none) := by
  rw [releaseLayer, if_pos hb, if_neg]
  exact fun hc => h.elim hc.1 fun hne => hne hc.2

theorem recvRetry_idle (hi : l.state = .idle) (hp : l.waitingForPeer = some src) :
    l.recvRetry = .ok ({ l with state := .retry, waitingForPeer := none }, some src) := by
  simp [recvRetry, retryWaiting, hi, hp]

theorem recvRetry_busy (hb : l.state = .busy) (hp : l.waitingForPeer = some src) :
    l.recvRetry = .ok
      ({ l with waitingForLayer := src :: l.waitingForLayer, waitingForPeer := none }, none) := by
  simp [recvRetry, hb, hp]

end Layer

end Gem5Cxl.L2
