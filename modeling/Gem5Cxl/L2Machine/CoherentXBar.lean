import Gem5Cxl.L2Machine.ConfigSpace
import Gem5Cxl.L2Machine.SnoopFilter
import Mathlib.Data.Finset.Card

/-!
# Coherent crossbars in timing mode

`CXLHostXBar` (the host's crossbars) and `CXLXBar` (the crossbar inside the CXL
device) are copies of one crossbar. This module is what they share: the state,
the request path from the won layer to the direct response, and the response
path. What the copies do differently is in `Variant` and in the functions of
their own modules.

A request wins the layer of its memory-side port (`winLayer`), is shown to the
caches above (`snoopAbove`), is then sunk, turned around or sent on (`deliver`),
completes its call of the snoop filter (`finishFilter`), and leaves its traces
in the routing tables (`record`, `completeClean`, `respond`).

* `Env`: what the neighbours do during one call.
* `Outcome`: what became of the packet; the source returns `Outcome.success`.
* `filterCalls` is not in the source and no modelled function reads it: it
  lists the calls of the crossbar to its snoop filter, the newest first.
* `*_ok`: everything a completed step did to the crossbar. `*_aside`: the steps
  that leave the requests alone.

Line numbers are those of mem/cxl_host_xbar.cc. Time, data and statistics are
left out. A packet is taken to lie in the address range of its first byte. The
calls to neighbours are steps of the environment, so a neighbour that calls the
crossbar back during a call is not modelled.
-/
namespace Gem5Cxl.L2

open Core L1 L2.ConfigSpace Function

/-- A call to the snoop filter, with the packet as the crossbar received it. -/
inductive FilterCall
  | lookupRequest (pkt : Packet)
  | finishRequest (pkt : Packet)
  | lookupSnoop (pkt : Packet)
  | updateSnoopResponse (pkt : Packet)
  | updateSnoopForward (pkt : Packet)
  | updateResponse (pkt : Packet)
deriving DecidableEq

/-- A call that belongs to a request on its way down. -/
def FilterCall.ofRequest : FilterCall → Bool
  | .lookupRequest _ | .finishRequest _ => true
  | _ => false

/-- The ports that compete for a response layer: the memory-side ports, and for
snoop responses the CPU-side ports. -/
inductive RespSource | mem (p : PortID) | snoop (p : PortID)
deriving DecidableEq, Repr

structure XBar where
  portMap : List (AddrRange × PortID)
  defaultPortID : Option PortID := none
  pointOfCoherency : Bool := false
  pointOfUnification : Bool := false
  bypassCaches : Bool := false
  maxOutstandingSnoopCheck : Nat := 512
  maxRoutingTableSizeCheck : Nat := 512
  snoopFilter : Option SnoopFilter := none
  reqLayers : PortID → Layer PortID := fun _ => {}
  respLayers : PortID → Layer RespSource := fun _ => {}
  snoopLayers : PortID → Layer PortID := fun _ => {}
  routeTo : AList (fun _ : ReqId => PortID) := ∅
  outstandingSnoop : Finset ReqId := ∅
  outstandingCMO : AList (fun _ : Nat => Option Packet) := ∅
  req : ReqId → Request := fun _ => {}
  filterCalls : List FilterCall := []

/-- The flags that the caches above may set on a packet they are shown. -/
structure Snoop where
  cacheResponding : Bool := false
  hasSharers : Bool := false
  responderHadWritable : Bool := false
  blockCached : Bool := false
  satisfied : Bool := false

def Snoop.mark (s : Snoop) (pkt : Packet) : Packet :=
  { pkt with
    cacheResponding := pkt.cacheResponding || s.cacheResponding
    hasSharers := pkt.hasSharers || s.hasSharers
    responderHadWritable := pkt.responderHadWritable || s.responderHadWritable
    blockCached := pkt.blockCached || s.blockCached
    satisfied := pkt.satisfied || s.satisfied }

/-- What the neighbours do during a call of `recvTimingReq`: whether the
memory-side peer says it could take a cache clean request (`tryTiming`), what the
caches above do to the packet, and whether the peer takes it. A peer that takes
it may change the request at once; one that refuses it leaves the type alone. -/
structure Env where
  ready : Bool := true
  snoop : Snoop := {}
  answer : Option Request

inductive Outcome
  | busy | notReady | refused | sunk | turned | sent (port : PortID)
deriving DecidableEq

/-- The value `recvTimingReq` returns. -/
def Outcome.success : Outcome → Bool
  | .busy | .notReady | .refused => false
  | .sunk | .turned | .sent _ => true

/-- What is done to `routeTo` for a request that will be answered: it is entered;
it is entered and erased at once; nothing is done but to look at the table's
size; or nothing at all. -/
inductive RouteAction | enter | probe | check | skip
deriving DecidableEq

/-- Where the crossbars differ: which requests are shown to the caches above, and
which requests enter `routeTo` (the second argument: the packet was sunk). -/
structure Variant where
  snoops : CXLPacketType → Bool
  route : CXLPacketType → Bool → RouteAction

namespace XBar

/-! ## Ports and predicates -/

variable (x : XBar)

/-- `BaseXBar::findPort` for `[lo, hi)`. mirrors mem/xbar.cc:333-367 -/
def findRange (lo hi : Nat) : Except Fault PortID :=
  match x.portMap.find? (fun e => e.1.start ≤ lo && hi ≤ e.1.stop), x.defaultPortID with
  | some e, _ => .ok e.2
  | none, some p => .ok p
  | none, none => .error (.panic "Unable to find destination for %s on %s\n%s\n")

/-- `BaseXBar::findPort` for a packet. -/
def findAddr (a : Nat) : Except Fault PortID := x.findRange a (a + 1)

/-- mirrors cxl_host_xbar.hh:430-435 -/
def isDestination (r : Request) : Bool :=
  (r.isToPOC && x.pointOfCoherency) || (r.isToPOU && x.pointOfUnification)

/-- mirrors cxl_host_xbar.cc:213-214 -/
def snoopCaches (pkt : Packet) : Bool := !x.bypassCaches && pkt.cmd ≠ .writeClean

/-- mirrors cxl_host_xbar.cc:1309-1331 -/
def sinkPacket (pkt : Packet) : Bool :=
  (x.pointOfCoherency && pkt.cacheResponding) ||
  (x.pointOfCoherency && !(pkt.cmd.isRead || pkt.cmd.isWrite) && !pkt.needsResponse) ||
  (pkt.isCleanEviction && pkt.blockCached) ||
  (pkt.cacheResponding && (!pkt.cmd.needsWritable || pkt.responderHadWritable))

/-- mirrors cxl_host_xbar.cc:1333-1345 -/
def forwardPacket (pkt : Packet) (r : Request) : Bool :=
  if pkt.cmd.isClean then !x.isDestination r
  else pkt.cmd.isRead || pkt.cmd.isWrite || !x.pointOfCoherency

def setLayer (port : PortID) (l : Layer PortID) : XBar :=
  { x with reqLayers := update x.reqLayers port l }

def called (f : SnoopFilter) (c : FilterCall) : XBar :=
  { x with snoopFilter := some f, filterCalls := c :: x.filterCalls }

/-! ## The request path -/

/-- Express snoops bypass the layer. mirrors cxl_host_xbar.cc:178-185 -/
def winLayer (port src : PortID) (pkt : Packet) : Except Fault (XBar × Bool) :=
  if pkt.expressSnoop then .ok (x, true)
  else do
    let (l, won) ← (x.reqLayers port).tryTiming src
    .ok (x.setLayer port l, won)

/-- The packet won the layer and was refused by the peer. -/
def failedTiming (x : XBar) (port src : PortID) : Except Fault XBar := do
  let l ← (x.reqLayers port).failedTiming src
  .ok (x.setLayer port l)

/-- A cache clean request is not snooped before the peer is ready for it.
mirrors cxl_host_xbar.cc:219-233 -/
def mustWait (v : Variant) (env : Env) (pkt : Packet) : Bool :=
  v.snoops (x.req pkt.req).cxlPacketType && x.snoopCaches pkt && pkt.cmd.isClean &&
    !x.isDestination (x.req pkt.req) && !env.ready

/-- mirrors cxl_host_xbar.cc:215-285 -/
def snoopAbove (v : Variant) (env : Env) (src : PortID) (pkt : Packet) :
    Except Fault (XBar × Packet) :=
  if v.snoops (x.req pkt.req).cxlPacketType && x.snoopCaches pkt then
    match x.snoopFilter with
    | none => .ok (x, env.snoop.mark pkt)
    | some f => do
      let (f', dests) ← f.lookupRequest pkt (x.req pkt.req) src
      let pkt' := if dests = ∅ then pkt
        else if pkt.cmd.isEviction then { pkt with blockCached := true } else env.snoop.mark pkt
      .ok (x.called f' (.lookupRequest pkt), pkt')
  else .ok (x, pkt)

/-- Sink the packet, send it on, or turn it around; `responding` is whether a
cache had promised to respond before. mirrors cxl_host_xbar.cc:287-337 -/
def deliver (env : Env) (responding : Bool) (port : PortID) (pkt : Packet) :
    Except Fault (XBar × Outcome) :=
  if x.sinkPacket pkt then .ok (x, .sunk)
  else if x.forwardPacket pkt (x.req pkt.req) then
    match env.answer with
    | some r => .ok ({ x with req := update x.req pkt.req r }, .sent port)
    | none => .ok (x, .refused)
  else if pkt.needsResponse = false then .error (.assertion .needsResponse)
  else if responding = false ∧ pkt.cacheResponding = true then .error (.assertion .noSnoopResp)
  else .ok (x, .turned)

/-- mirrors cxl_host_xbar.cc:339-343 -/
def finishFilter (willRetry : Bool) (pkt : Packet) : Except Fault XBar :=
  match x.snoopFilter with
  | none => .ok x
  | some f =>
    if x.snoopCaches pkt then do
      let f' ← f.finishRequest willRetry pkt.addr pkt.isSecure
      .ok (x.called f' (.finishRequest pkt))
    else .ok x

/-! ## What an accepted packet leaves behind -/

/-- `expected`: a cache above has promised to respond.
mirrors cxl_host_xbar.cc:364-377 -/
def addSnoop (expected : Bool) (q : ReqId) : Except Fault XBar :=
  if expected = false then .ok x
  else if q ∈ x.outstandingSnoop then .error (.assertion .snoopAbsent)
  else if (insert q x.outstandingSnoop).card > x.maxOutstandingSnoopCheck then
    .error (.panic "%s: Outstanding snoop requests exceeded %d\n")
  else .ok { x with outstandingSnoop := insert q x.outstandingSnoop }

/-- `panic_if(routeTo.size() > maxRoutingTableSizeCheck, ...)`. -/
def checkRoutes : Except Fault XBar :=
  if x.routeTo.entries.length > x.maxRoutingTableSizeCheck then
    .error (.panic "%s: Routing table exceeds %d packets\n")
  else .ok x

/-- mirrors cxl_host_xbar.cc:379-402 -/
def addRoute (a : RouteAction) (q : ReqId) (src : PortID) : Except Fault XBar :=
  match a with
  | .skip => .ok x
  | .check => x.checkRoutes
  | .probe => if q ∈ x.routeTo then .error (.assertion .routeToAbsent) else x.checkRoutes
  | .enter =>
    if q ∈ x.routeTo then .error (.assertion .routeToAbsent)
    else checkRoutes { x with routeTo := x.routeTo.insert q src }

def succeededTiming (x : XBar) (port : PortID) : Except Fault XBar := do
  let l ← (x.reqLayers port).succeededTiming
  .ok (x.setLayer port l)

/-- `pkt` is the packet as it came, `pkt'` as the caches above left it.
mirrors cxl_host_xbar.cc:360-406 -/
def record (v : Variant) (port src : PortID) (pkt pkt' : Packet) (o : Outcome) :
    Except Fault XBar :=
  let expectSnoopResp := !pkt.cacheResponding && pkt'.cacheResponding
  let expectResponse := pkt'.needsResponse && !pkt'.cacheResponding && o ≠ .turned
  if pkt.expressSnoop then .ok x
  else do
    let x1 ← x.addSnoop expectSnoopResp pkt.req
    let a := if expectResponse || expectSnoopResp then
      v.route (x.req pkt.req).cxlPacketType (o = .sunk) else .skip
    let x2 ← x1.addRoute a pkt.req src
    x2.succeededTiming port

/-- The other half of the cache clean has passed before: the packet to respond to,
and the port to respond on. mirrors cxl_host_xbar.cc:445-465 -/
def closeClean (src : PortID) (pkt : Packet) (deferred : Option Packet) :
    Except Fault (XBar × Option (Packet × PortID)) :=
  let cmo := x.outstandingCMO.erase pkt.packetId
  if pkt.cmd.isWrite then
    match deferred with
    | none => .error (.assertion .deferredResponse)
    | some rsp =>
      match x.routeTo.lookup rsp.req with
      | none => .error (.assertion .routeToPresent)
      | some p =>
        .ok ({ x with outstandingCMO := cmo, routeTo := x.routeTo.erase rsp.req }, some (rsp, p))
  else .ok ({ x with outstandingCMO := cmo }, some (pkt, src))

/-- It has not: the response is put off. mirrors cxl_host_xbar.cc:466-490 -/
def openClean (v : Variant) (src : PortID) (pkt : Packet) (o : Outcome) :
    Except Fault (XBar × Option (Packet × PortID)) :=
  if pkt.cmd.isWrite then
    .ok ({ x with outstandingCMO := x.outstandingCMO.insert pkt.packetId none }, none)
  else if pkt.req ∈ x.routeTo then .error (.assertion .routeToAbsent)
  else do
    let cmo := x.outstandingCMO.insert pkt.packetId (some pkt)
    let x1 ← addRoute { x with outstandingCMO := cmo }
      (v.route (x.req pkt.req).cxlPacketType (o = .sunk)) pkt.req src
    let x2 ← x1.checkRoutes
    .ok (x2, none)

/-- The crossbar answers a cache clean request once it has seen both the request
and the write it caused; `dest` is whether it is the destination of the request.
mirrors cxl_host_xbar.cc:424-492 -/
def completeClean (v : Variant) (dest : Bool) (src : PortID) (pkt : Packet)
    (o : Outcome) : Except Fault (XBar × Option (Packet × PortID)) :=
  if ((pkt.cmd.isClean && pkt.satisfied) || pkt.cmd = .writeClean) && dest then
    match x.outstandingCMO.lookup pkt.packetId with
    | some deferred => x.closeClean src pkt deferred
    | none => x.openClean v src pkt o
  else if o = .turned then .ok (x, some (pkt, src))
  else .ok (x, none)

/-- `updateResponse`, for a filter that is there and not bypassed. -/
def updateResponse (x : XBar) (pkt : Packet) (p : PortID) : Except Fault XBar :=
  match x.snoopFilter with
  | none => .ok x
  | some f =>
    if x.bypassCaches then .ok x
    else do
      let f' ← f.updateResponse pkt (x.req pkt.req) p
      .ok (x.called f' (.updateResponse pkt))

/-- mirrors cxl_host_xbar.cc:495-515 -/
def respond : Option (Packet × PortID) → Except Fault XBar
  | none => .ok x
  | some (rsp, p) => do
    let rsp' ← rsp.makeResponse
    x.updateResponse rsp' p

/-- The rest of the call once the packet was delivered.
mirrors cxl_host_xbar.cc:345-517 -/
def conclude (v : Variant) (dest : Bool) (port src : PortID) (pkt pkt' : Packet)
    (o : Outcome) : Except Fault (XBar × Outcome) :=
  if o = .refused then
    if pkt.expressSnoop then .error (.assertion .notExpressSnoop)
    else do
      let x1 ← x.failedTiming port src
      .ok (x1, o)
  else do
    let x1 ← x.record v port src pkt pkt' o
    let (x2, rsp) ← x1.completeClean v dest src pkt' o
    let x3 ← x2.respond rsp
    .ok (x3, o)

/-- `recvTimingReq` from the point where the memory-side port is known.
mirrors cxl_host_xbar.cc:178-517 -/
def recvTimingReqOn (v : Variant) (env : Env) (port src : PortID) (pkt : Packet) :
    Except Fault (XBar × Outcome) := do
  let (x1, won) ← x.winLayer port src pkt
  if won = false then .ok (x1, .busy)
  else if x1.mustWait v env pkt then do
    let x2 ← x1.failedTiming port src
    .ok (x2, .notReady)
  else do
    let (x2, pkt') ← x1.snoopAbove v env src pkt
    let (x3, o) ← x2.deliver env pkt.cacheResponding port pkt'
    let x4 ← x3.finishFilter (o = .refused) pkt
    x4.conclude v (x.isDestination (x.req pkt.req)) port src pkt pkt' o

/-! ## The response path -/

/-- mirrors cxl_host_xbar.cc:520-662 -/
def recvTimingResp (src : PortID) (pkt : Packet) : Except Fault (XBar × Bool) :=
  match x.routeTo.lookup pkt.req with
  | none => .error (.assertion .routeToPresent)
  | some p => do
    let (l, won) ← (x.respLayers p).tryTiming (.mem src)
    if won = false then .ok ({ x with respLayers := update x.respLayers p l }, false)
    else do
      let x1 ← x.updateResponse pkt p
      let l' ← l.succeededTiming
      .ok ({ x1 with routeTo := x1.routeTo.erase pkt.req
                     respLayers := update x1.respLayers p l' }, true)

/-! ## Snoops from below, and responses to snoops -/

/-- mirrors cxl_host_xbar.cc:695-710 -/
def lookupSnoop (x : XBar) (snoop : Snoop) (pkt : Packet) : Except Fault (XBar × Packet) :=
  match x.snoopFilter with
  | none => .ok (x, snoop.mark pkt)
  | some f => do
    let (f', dests) ← f.lookupSnoop pkt (x.req pkt.req)
    .ok (x.called f' (.lookupSnoop pkt), if dests = ∅ then pkt else snoop.mark pkt)

/-- A snoop from memory-side port `src` is shown to the caches above; a cache that
will respond makes it wait for its response. mirrors cxl_host_xbar.cc:664-722 -/
def recvTimingSnoopReq (snoop : Snoop) (src : PortID) (pkt : Packet) :
    Except Fault XBar :=
  if pkt.expressSnoop = false then .error (.assertion .isExpressSnoop)
  else if x.bypassCaches then .error (.assertion .notBypassCaches)
  else do
    let (x1, pkt') ← x.lookupSnoop snoop pkt
    if pkt.cacheResponding = false ∧ pkt'.cacheResponding = true then
      if pkt.req ∈ x1.routeTo then .error (.assertion .routeToAbsent)
      else .ok { x1 with routeTo := x1.routeTo.insert pkt.req src }
    else .ok x1

def updateSnoopForward (x : XBar) (pkt : Packet) : Except Fault XBar :=
  match x.snoopFilter with
  | none => .ok x
  | some f => do
    let f' ← f.updateSnoopForward pkt
    .ok (x.called f' (.updateSnoopForward pkt))

def updateSnoopResponse (x : XBar) (pkt : Packet) (rsp req : PortID) : Except Fault XBar :=
  match x.snoopFilter with
  | none => .ok x
  | some f => do
    let f' ← f.updateSnoopResponse pkt (x.req pkt.req) rsp req
    .ok (x.called f' (.updateSnoopResponse pkt))

/-- The response to a snoop from below goes on down.
mirrors cxl_host_xbar.cc:780-786,806-807,822-840,878 -/
def forwardSnoopResp (src dest : PortID) (pkt : Packet) : Except Fault (XBar × Bool) := do
  let (l, won) ← (x.snoopLayers dest).tryTiming src
  if won = false then .ok ({ x with snoopLayers := update x.snoopLayers dest l }, false)
  else if pkt.expressSnoop then .error (.assertion .notExpressSnoop)
  else do
    let x1 ← x.updateSnoopForward pkt
    let l' ← l.succeededTiming
    .ok ({ x1 with routeTo := x1.routeTo.erase pkt.req
                   snoopLayers := update x1.snoopLayers dest l' }, true)

/-- The response to a snoop of our own answers the request of port `dest`.
mirrors cxl_host_xbar.cc:787-796,806-807,841-873,878 -/
def returnSnoopResp (src dest : PortID) (pkt : Packet) : Except Fault (XBar × Bool) := do
  let (l, won) ← (x.respLayers dest).tryTiming (.snoop src)
  if won = false then .ok ({ x with respLayers := update x.respLayers dest l }, false)
  else if pkt.expressSnoop then .error (.assertion .notExpressSnoop)
  else if src = dest then .error (.assertion .notSamePort)
  else do
    let x1 ← x.updateSnoopResponse pkt src dest
    let l' ← l.succeededTiming
    .ok ({ x1 with routeTo := x1.routeTo.erase pkt.req
                   outstandingSnoop := x1.outstandingSnoop.erase pkt.req
                   respLayers := update x1.respLayers dest l' }, true)

/-- CPU-side port `src` responds to a snoop. mirrors cxl_host_xbar.cc:732-897 -/
def recvTimingSnoopResp (src : PortID) (pkt : Packet) : Except Fault (XBar × Bool) :=
  match x.routeTo.lookup pkt.req with
  | none => .error (.assertion .routeToPresent)
  | some dest =>
    if pkt.req ∈ x.outstandingSnoop then x.returnSnoopResp src dest pkt
    else x.forwardSnoopResp src dest pkt

/-- The peer of a memory-side port is ready again. mirrors cxl_host_xbar.cc:928-935 -/
def recvReqRetry (port : PortID) : Except Fault (XBar × Option PortID) := do
  let (l, p) ← (x.reqLayers port).recvRetry
  .ok (x.setLayer port l, p)

/-! ## What a completed step did -/

section Effects

variable {x x' : XBar} {v : Variant} {env : Env} {port src : PortID} {pkt pkt' : Packet}
  {o : Outcome} {dest : Bool} {o' : Outcome} {y : XBar}

/-- What is fixed when the crossbar is built. -/
structure Static (x x' : XBar) : Prop where
  portMap : x'.portMap = x.portMap
  defaultPortID : x'.defaultPortID = x.defaultPortID
  bypassCaches : x'.bypassCaches = x.bypassCaches

theorem Static.trans (h : Static x y) (h' : Static y x') : Static x x' :=
  ⟨h'.1.trans h.1, h'.2.trans h.2, h'.3.trans h.3⟩

theorem Static.findAddr (h : Static x x') (a : Nat) : x'.findAddr a = x.findAddr a := by
  unfold XBar.findAddr findRange
  rw [h.portMap, h.defaultPortID]

/-- A step that leaves all requests alone, and calls the filter at most once, for
something else than a request. -/
structure Aside (x x' : XBar) : Prop where
  static : Static x x'
  req : x'.req = x.req
  filter : (x'.snoopFilter = x.snoopFilter ∧ x'.filterCalls = x.filterCalls) ∨
    ∃ f f' c, x.snoopFilter = some f ∧ (f.Tidy → f'.Tidy) ∧ c.ofRequest = false ∧
      x'.snoopFilter = some f' ∧ x'.filterCalls = c :: x.filterCalls

theorem Aside.refl (x : XBar) : Aside x x := ⟨⟨rfl, rfl, rfl⟩, rfl, .inl ⟨rfl, rfl⟩⟩

theorem aside_called {f f' : SnoopFilter} {c : FilterCall} (hf : x.snoopFilter = some f)
    (ht : f.Tidy → f'.Tidy) (hc : c.ofRequest = false) : Aside x (x.called f' c) :=
  ⟨⟨rfl, rfl, rfl⟩, rfl, .inr ⟨f, f', c, hf, ht, hc, rfl, rfl⟩⟩

theorem updateResponse_aside {p : PortID} : Yields (Aside x) (x.updateResponse pkt p) := by
  unfold updateResponse
  split
  · simp [Aside.refl]
  · rename_i f hf
    simp only [yields_ite, yields_ok, yields_bind]
    exact ⟨fun _ => .refl x, fun _ f' hu => aside_called hf (fun ht => SnoopFilter.updateResponse_tidy ht f' hu) rfl⟩

/-- A step that touched the layers and the tables of outstanding requests only. -/
def Books (x x' : XBar) : Prop :=
  ∃ ls os rt cmo, x' = { x with reqLayers := ls, outstandingSnoop := os, routeTo := rt,
                                outstandingCMO := cmo }

@[simp] theorem Books.refl (x : XBar) : Books x x := ⟨_, _, _, _, rfl⟩

@[simp] theorem books_self (x : XBar) (ls : PortID → Layer PortID) (os : Finset ReqId)
    (rt : AList fun _ : ReqId => PortID) (cmo : AList fun _ : Nat => Option Packet) :
    Books x
      { x with reqLayers := ls, outstandingSnoop := os, routeTo := rt, outstandingCMO := cmo } :=
  ⟨_, _, _, _, rfl⟩

theorem Books.trans (h : Books x y) (h' : Books y x') : Books x x' := by
  obtain ⟨_, _, _, _, rfl⟩ := h
  obtain ⟨_, _, _, _, rfl⟩ := h'
  exact ⟨_, _, _, _, rfl⟩

theorem Books.then_aside (h : Books x y) (h' : Aside y x') : Aside x x' := by
  obtain ⟨_, _, _, _, rfl⟩ := h
  exact ⟨{ h'.1 with }, h'.2, h'.3⟩

theorem Books.aside (h : Books x x') : Aside x x' := h.then_aside (.refl x')

theorem books_setLayer (x : XBar) (port : PortID) (l : Layer PortID) :
    Books x (x.setLayer port l) :=
  ⟨_, _, _, _, rfl⟩

theorem winLayer_ok {won : Bool} (h : x.winLayer port src pkt = .ok (x', won)) :
    Books x x' ∧ won = (pkt.expressSnoop || !(x.reqLayers port).taken) := by
  unfold winLayer at h
  split at h
  · rename_i he
    cases h
    exact ⟨.refl x, by simp [he]⟩
  · rename_i he
    obtain ⟨⟨l, won'⟩, hl, h⟩ := bind_eq_ok.mp h
    cases h
    refine ⟨books_setLayer x port l, ?_⟩
    cases won with
    | false => simp [(Layer.tryTiming_lost hl).1, he]
    | true => simp [(Layer.tryTiming_won hl).1]

theorem failedTiming_books : Yields (Books x) (x.failedTiming port src) := by
  simp [failedTiming, setLayer]

/-- A packet before and after it was shown to the caches above. -/
structure Shown (env : Env) (pkt pkt' : Packet) : Prop where
  req : pkt'.req = pkt.req
  cmd : pkt'.cmd = pkt.cmd
  responding : pkt'.cacheResponding = true →
    pkt.cacheResponding = true ∨ env.snoop.cacheResponding = true

theorem shown_mark (env : Env) (pkt : Packet) : Shown env pkt (env.snoop.mark pkt) :=
  ⟨rfl, rfl, fun h => by simpa [Snoop.mark] using h⟩

theorem snoopAbove_ok (h : x.snoopAbove v env src pkt = .ok (x', pkt')) :
    Shown env pkt pkt' ∧
      (x' = x ∧ ((v.snoops (x.req pkt.req).cxlPacketType && x.snoopCaches pkt) = false ∨
        x.snoopFilter = none) ∨
      ∃ f f' d, x.snoopFilter = some f ∧
        (v.snoops (x.req pkt.req).cxlPacketType && x.snoopCaches pkt) = true ∧
        f.lookupRequest pkt (x.req pkt.req) src = .ok (f', d) ∧
        x' = x.called f' (.lookupRequest pkt)) := by
  unfold snoopAbove at h
  split at h
  · rename_i hs
    split at h
    · rename_i hf
      cases h
      exact ⟨shown_mark env pkt, .inl ⟨rfl, .inr hf⟩⟩
    · rename_i f hf
      obtain ⟨⟨f', d⟩, hl, h⟩ := bind_eq_ok.mp h
      cases h
      refine ⟨?_, .inr ⟨f, f', d, hf, hs, hl, rfl⟩⟩
      split
      · exact ⟨rfl, rfl, .inl⟩
      split
      · exact ⟨rfl, rfl, .inl⟩
      · exact shown_mark env pkt
  · rename_i hs
    cases h
    exact ⟨⟨rfl, rfl, .inl⟩, .inl ⟨rfl, .inl (by simpa using hs)⟩⟩

theorem deliver_ok {responding : Bool} (h : x.deliver env responding port pkt = .ok (x', o)) :
    (x' = x ∧ (o = .sunk ∨ o = .refused ∨ o = .turned)) ∨
      ∃ r, env.answer = some r ∧ x' = { x with req := update x.req pkt.req r } ∧
        o = .sent port := by
  unfold deliver at h
  split at h
  · cases h
    exact .inl ⟨rfl, .inl rfl⟩
  split at h
  · split at h
    · rename_i r hr
      cases h
      exact .inr ⟨r, hr, rfl, rfl⟩
    · cases h
      exact .inl ⟨rfl, .inr (.inl rfl)⟩
  split at h
  · cases h
  split at h
  · cases h
  · cases h
    exact .inl ⟨rfl, .inr (.inr rfl)⟩

theorem addRoute_books {a : RouteAction} {q : ReqId} : Yields (Books x) (x.addRoute a q src) := by
  cases a <;> simp [addRoute, checkRoutes]

theorem record_books : Yields (Books x) (x.record v port src pkt pkt' o) := by
  have hsnoop : ∀ expected, Yields (Books x) (x.addSnoop expected pkt.req) := by
    simp [addSnoop]
  simp only [record, succeededTiming, yields_ite, yields_ok, yields_bind]
  refine ⟨fun _ => .refl x, fun _ => (hsnoop _).imp fun x1 h1 => addRoute_books.imp fun x2 h2 l _ => ?_⟩
  exact (h1.trans h2).trans (books_setLayer x2 port l)

theorem completeClean_books : Yields (fun a => Books x a.1) (x.completeClean v dest src pkt o) := by
  have hclose : ∀ deferred, Yields (fun a => Books x a.1) (x.closeClean src pkt deferred) := by
    rintro (- | rsp)
    · simp [closeClean]
    · cases h : x.routeTo.lookup rsp.req <;> simp [closeClean, h]
  have hopen : Yields (fun a => Books x a.1) (x.openClean v src pkt o) := by
    simp only [openClean, checkRoutes, yields_ite, yields_ok, yields_bind, yields_error, implies_true, true_and]
    exact ⟨fun _ => books_self .., fun _ _ => addRoute_books.imp fun x1 h1 _ => (books_self ..).trans h1⟩
  cases h : x.outstandingCMO.lookup pkt.packetId <;> simp [completeClean, h, hclose, hopen]

theorem finishFilter_ok {w : Bool} (h : x.finishFilter w pkt = .ok x') :
    (x' = x ∧ (x.snoopFilter = none ∨ x.snoopCaches pkt = false)) ∨
      ∃ f f', x.snoopFilter = some f ∧ x.snoopCaches pkt = true ∧
        f.finishRequest w pkt.addr pkt.isSecure = .ok f' ∧
        x' = x.called f' (.finishRequest pkt) := by
  unfold finishFilter at h
  split at h
  · rename_i hf
    cases h
    exact .inl ⟨rfl, .inl hf⟩
  · rename_i f hf
    split at h
    · rename_i hs
      obtain ⟨f', hu, h⟩ := bind_eq_ok.mp h
      cases h
      exact .inr ⟨f, f', hf, hs, hu, rfl⟩
    · rename_i hs
      cases h
      exact .inl ⟨rfl, .inr (by simpa using hs)⟩

theorem conclude_refused
    (h : x.conclude v dest port src pkt pkt' .refused = .ok (x', o')) :
    o' = .refused ∧ Books x x' := by
  unfold conclude at h
  rw [if_pos rfl] at h
  split at h
  · cases h
  · obtain ⟨x1, h1, h⟩ := bind_eq_ok.mp h
    cases h
    exact ⟨rfl, failedTiming_books _ h1⟩

/-- The rest of a call only keeps the books, but for a direct response, which the
snoop filter is told about. -/
theorem conclude_ok (h : x.conclude v dest port src pkt pkt' o = .ok (x', o')) :
    o' = o ∧ Aside x x' := by
  by_cases ho : o = .refused
  · subst ho
    exact (conclude_refused h).imp_right Books.aside
  rw [conclude, if_neg ho] at h
  obtain ⟨x1, h1, h⟩ := bind_eq_ok.mp h
  obtain ⟨⟨x2, rsp⟩, h2, h⟩ := bind_eq_ok.mp h
  obtain ⟨x3, h3, h⟩ := bind_eq_ok.mp h
  cases h
  have hb : Books x x2 := (record_books x1 h1).trans (completeClean_books _ h2)
  refine ⟨rfl, ?_⟩
  rcases rsp with - | ⟨rsp, p⟩
  · cases h3
    exact hb.aside
  · obtain ⟨rsp', -, h3⟩ := bind_eq_ok.mp h3
    exact hb.then_aside (updateResponse_aside x' h3)

section
variable (h : x.recvTimingReqOn v env port src pkt = .ok (x', o))
include h

/-- A packet is turned away before anything is done with it, or takes all steps. -/
theorem recvTimingReqOn_ok :
    (Books x x' ∧ (o = .busy ∧ (pkt.expressSnoop || !(x.reqLayers port).taken) = false ∨
      o = .notReady ∧ v.snoops (x.req pkt.req).cxlPacketType = true ∧ pkt.cmd.isClean = true)) ∨
      ∃ x1 x2 x3 x4 pkt', Books x x1 ∧ (pkt.expressSnoop || !(x.reqLayers port).taken) = true ∧
        x1.snoopAbove v env src pkt = .ok (x2, pkt') ∧
        x2.deliver env pkt.cacheResponding port pkt' = .ok (x3, o) ∧
        x3.finishFilter (o = .refused) pkt = .ok x4 ∧
        x4.conclude v (x.isDestination (x.req pkt.req)) port src pkt pkt' o = .ok (x', o) := by
  obtain ⟨⟨x1, won⟩, h1, h⟩ := bind_eq_ok.mp h
  obtain ⟨hb, hwon⟩ := winLayer_ok h1
  simp only at h
  split at h
  · rename_i hw
    cases h
    exact .inl ⟨hb, .inl ⟨rfl, hwon ▸ hw⟩⟩
  · rename_i hw
    split at h
    · rename_i hwait
      obtain ⟨x2, h2, h⟩ := bind_eq_ok.mp h
      cases h
      simp only [mustWait, Bool.and_eq_true, hb.aside.req] at hwait
      exact .inl ⟨hb.trans (failedTiming_books _ h2), .inr ⟨rfl, hwait.1.1.1.1, hwait.1.1.2⟩⟩
    · obtain ⟨⟨x2, pkt'⟩, h2, h⟩ := bind_eq_ok.mp h
      obtain ⟨⟨x3, o'⟩, h3, h⟩ := bind_eq_ok.mp h
      obtain ⟨x4, h4, h⟩ := bind_eq_ok.mp h
      obtain rfl := (conclude_ok h).1
      refine .inr ⟨x1, x2, x3, x4, pkt', hb, ?_, h2, h3, h4, h⟩
      rw [← hwon]
      simpa using hw

/-- The request is changed by nobody but the peer that takes it, and a packet is
sent to the port that was chosen for it. -/
theorem recvTimingReqOn_frame :
    Static x x' ∧ ((x'.req = x.req ∧ ∀ m, o ≠ .sent m) ∨
      o = .sent port ∧ ∃ r, env.answer = some r ∧ x'.req = update x.req pkt.req r) := by
  rcases recvTimingReqOn_ok h with ⟨hb, ho⟩ | ⟨x1, x2, x3, x4, pkt', hb, -, h2, h3, h4, h5⟩
  · refine ⟨hb.aside.static, .inl ⟨hb.aside.req, ?_⟩⟩
    rintro m rfl
    rcases ho with ⟨ho, -⟩ | ⟨ho, -⟩ <;> cases ho
  obtain ⟨⟨hpkt, -⟩, h2⟩ := snoopAbove_ok h2
  have hx2 : Static x x2 ∧ x2.req = x.req := by
    rcases h2 with ⟨rfl, -⟩ | ⟨f, f', d, -, -, -, rfl⟩
    · exact ⟨hb.aside.static, hb.aside.req⟩
    · exact ⟨hb.aside.static.trans ⟨rfl, rfl, rfl⟩, hb.aside.req⟩
  have hx4 : Static x3 x4 ∧ x4.req = x3.req := by
    rcases finishFilter_ok h4 with ⟨rfl, -⟩ | ⟨f, f', -, -, -, rfl⟩ <;> exact ⟨⟨rfl, rfl, rfl⟩, rfl⟩
  have hx' : Aside x4 x' := (conclude_ok h5).2
  have hreq : x'.req = x3.req := hx'.req.trans hx4.2
  have hstatic : Static x3 x' := hx4.1.trans hx'.static
  rcases deliver_ok h3 with ⟨rfl, ho⟩ | ⟨r, hr, rfl, rfl⟩
  · refine ⟨hx2.1.trans hstatic, .inl ⟨hreq.trans hx2.2, ?_⟩⟩
    rintro m rfl
    rcases ho with ho | ho | ho <;> cases ho
  · refine ⟨hx2.1.trans { hstatic with }, .inr ⟨rfl, r, hr, ?_⟩⟩
    rw [hreq]
    simp only [hpkt, hx2.2]

/-- A read for writing is sent on if nothing stands in its way: the layer is free,
no cache above responds, and the peer takes it. -/
theorem recvTimingReqOn_sent {r : Request} (hc : pkt.cmd = .readExReq)
    (hl : (x.reqLayers port).taken = false) (hp : pkt.cacheResponding = false)
    (hs : env.snoop.cacheResponding = false) (ha : env.answer = some r) : o = .sent port := by
  rcases recvTimingReqOn_ok h with
    ⟨-, ⟨-, ho⟩ | ⟨-, -, ho⟩⟩ | ⟨x1, x2, x3, x4, pkt', -, -, h2, h3, -⟩
  · simp [hl] at ho
  · rw [hc] at ho
    cases ho
  obtain ⟨⟨-, hcmd, hresp⟩, -⟩ := snoopAbove_ok h2
  have hc' : pkt'.cmd = .readExReq := hcmd.trans hc
  have hr' : pkt'.cacheResponding = false := by
    by_contra hr
    rcases hresp (by simpa using hr) with hr | hr
    · rw [hp] at hr
      cases hr
    · rw [hs] at hr
      cases hr
  have hread : pkt'.cmd.isRead = true := by rw [hc']; decide
  have hclean : pkt'.cmd.isClean = false := by rw [hc']; decide
  have hevict : pkt'.isCleanEviction = false := by simp [Packet.isCleanEviction, hc']
  have hsink : x2.sinkPacket pkt' = false := by simp [sinkPacket, hr', hread, hevict]
  have hfwd : x2.forwardPacket pkt' (x2.req pkt'.req) = true := by
    simp [forwardPacket, hclean, hread]
  simp only [deliver, hsink, hfwd, ha, if_true, Bool.false_eq_true, if_false] at h3
  cases h3
  rfl

end

end Effects

/-! ## Steps that are not about a request -/

section Asides

variable {x x' : XBar} {src : PortID} {pkt : Packet} {dest : PortID}

theorem Aside.tables {rt : AList fun _ : ReqId => PortID} {os : Finset ReqId}
    {rl : PortID → Layer RespSource} {sl : PortID → Layer PortID} (h : Aside x x') :
    Aside x
      { x' with routeTo := rt, outstandingSnoop := os, respLayers := rl, snoopLayers := sl } :=
  ⟨{ h.1 with }, h.2, h.3⟩

theorem recvTimingResp_aside : Yields (fun a => Aside x a.1) (x.recvTimingResp src pkt) := by
  unfold recvTimingResp
  split
  · simp
  · simp only [yields_ite, yields_ok, yields_bind]
    exact fun _ _ => ⟨fun _ => (Aside.refl x).tables, fun _ => updateResponse_aside.imp fun x1 h1 _ _ => h1.tables⟩

theorem forwardSnoopResp_aside :
    Yields (fun a => Aside x a.1) (x.forwardSnoopResp src dest pkt) := by
  have hcall : Yields (Aside x) (x.updateSnoopForward pkt) := by
    unfold updateSnoopForward
    split
    · simp [Aside.refl]
    · rename_i f hf
      simp only [yields_ok, yields_bind]
      exact fun f' hu => aside_called hf (fun ht => SnoopFilter.updateSnoopForward_tidy ht f' hu) rfl
  simp only [forwardSnoopResp, yields_ite, yields_ok, yields_bind, yields_error, implies_true, true_and]
  exact fun _ _ => ⟨fun _ => (Aside.refl x).tables, fun _ _ => hcall.imp fun x1 h1 _ _ => h1.tables⟩

theorem returnSnoopResp_aside : Yields (fun a => Aside x a.1) (x.returnSnoopResp src dest pkt) := by
  have hcall : Yields (Aside x) (x.updateSnoopResponse pkt src dest) := by
    unfold updateSnoopResponse
    split
    · simp [Aside.refl]
    · rename_i f hf
      simp only [yields_ok, yields_bind]
      exact fun f' hu => aside_called hf (fun ht => SnoopFilter.updateSnoopResponse_tidy ht f' hu) rfl
  simp only [returnSnoopResp, yields_ite, yields_ok, yields_bind, yields_error, implies_true, true_and]
  exact fun _ _ => ⟨fun _ => (Aside.refl x).tables, fun _ _ _ => hcall.imp fun x1 h1 _ _ => h1.tables⟩

theorem recvTimingSnoopResp_aside :
    Yields (fun a => Aside x a.1) (x.recvTimingSnoopResp src pkt) := by
  unfold recvTimingSnoopResp
  split
  · simp
  · simp [returnSnoopResp_aside, forwardSnoopResp_aside]

theorem recvTimingSnoopReq_aside {snoop : Snoop} :
    Yields (Aside x) (x.recvTimingSnoopReq snoop src pkt) := by
  have hcall : Yields (fun a => Aside x a.1) (x.lookupSnoop snoop pkt) := by
    unfold lookupSnoop
    split
    · simp [Aside.refl]
    · rename_i f hf
      simp only [yields_ok, yields_bind]
      exact fun a hu => aside_called hf (fun ht => SnoopFilter.lookupSnoop_tidy ht a hu) rfl
  simp only [recvTimingSnoopReq, yields_ite, yields_ok, yields_bind, yields_error, implies_true, true_and]
  exact fun _ _ => hcall.imp fun a h => ⟨fun _ _ => h.tables, fun _ => h⟩

end Asides

end XBar

end Gem5Cxl.L2
