import Gem5Cxl.L2Machine.CoherentXBar
import Gem5Cxl.L2Machine.Dcoh

/-!
# The crossbar inside the CXL device (`CXLXBar`)

Port 1 on the CPU side is the device's own processor; requests of the host come
in on the other ports. A request of the processor to CXL memory asks the
device's bias table first. On a page in device bias it is an ordinary request of
the crossbar. On a page in host bias the host must be asked: the port retags the
packet as a `HostBiasCheck` and sends it to the device's coherence engine itself,
past the crossbar's layers. The check comes back from the host as a request and
is then handed to the crossbar as one of port 1.

* `recvTimingReq`: the crossbar's own request path.
* `portRecvTimingReq`: what a CPU-side port does before it.
* `sendCheck_ok`: everything a check does to the crossbar.

Line numbers are those of dev/cxl/TestDev/CXLXBar.cc.
-/
namespace Gem5Cxl.L2

open Core L1

/-- `bias`: the device's table, which the crossbar asks by `CheckBias`. -/
structure CxlXBar extends XBar where
  bias : Dcoh.BiasTable := fun _ => none

namespace CxlXBar

/-- All requests are shown to the caches. Checks are not routed here, and answers
to snoops of the device only if they are sunk. mirrors CXLXBar.cc:480-536,624-646 -/
def variant : Variant where
  snoops _ := true
  route t sunk :=
    if t ≠ .hostBiasCheck ∧ t ≠ .cxlCacheH2DResp then .enter
    else if sunk = true ∧ t = .cxlCacheH2DResp then .enter
    else .skip

/-- mirrors CXLXBar.cc:428-752 -/
def recvTimingReq (x : CxlXBar) (env : Env) (src : PortID) (pkt : Packet) :
    Except Fault (CxlXBar × Outcome) :=
  if pkt.expressSnoop ≠ pkt.cacheResponding then .error (.assertion .expressSnoopResponding)
  else do
    let port ← x.findAddr pkt.addr
    let (y, o) ← x.toXBar.recvTimingReqOn variant env port src pkt
    .ok ({ x with toXBar := y }, o)

/-- `CheckBias`: whether the page is in host bias. The query itself is routed to
the device's registers. mirrors CXLXBar.cc:196-209, CXLDevice.cc:127-139 -/
def checkBias (x : CxlXBar) (a : Nat) : Except Fault (Bool × CxlXBar) := do
  let _ ← x.findAddr 0x15000000
  let (host, t) ← Dcoh.isHostBiasMode x.bias a
  .ok (host, { x with bias := t })

/-- The port sends a check to the coherence engine. mirrors CXLXBar.cc:67-92 -/
def sendCheck (x : CxlXBar) (env : Env) (id : PortID) (pkt : Packet) :
    Except Fault (CxlXBar × Outcome) :=
  let r := { x.req pkt.req with cxlPacketType := .hostBiasCheck }
  if pkt.req ∈ x.routeTo then .error (.assertion .routeToAbsent)
  else do
    let port ← x.findRange 0x15000000 (0x15000000 + 0x40000)
    let x1 := { x with routeTo := x.routeTo.insert pkt.req id }
    match env.answer with
    | some r' => .ok ({ x1 with req := Function.update x.req pkt.req r' }, .sent port)
    | none => .ok ({ x1 with req := Function.update x.req pkt.req r }, .refused)

/-- `CXLXBarResponsePort::recvTimingReq`. mirrors CXLXBar.cc:21-105 -/
def portRecvTimingReq (x : CxlXBar) (env : Env) (id : PortID) (pkt : Packet) :
    Except Fault (CxlXBar × Outcome) :=
  if id ≠ 1 then
    if (x.req pkt.req).cxlPacketType = .hostBiasCheck then
      x.recvTimingReq env 1
        (if pkt.cacheResponding then pkt else { pkt with expressSnoop := false })
    else x.recvTimingReq env id pkt
  else if inCxlMem pkt.addr then do
    let (host, x1) ← x.checkBias pkt.addr
    if host then x1.sendCheck env id pkt else x1.recvTimingReq env id pkt
  else x.recvTimingReq env id pkt

/-- The peer of a memory-side port is ready again. -/
def recvReqRetry (x : CxlXBar) (port : PortID) : Except Fault (CxlXBar × Option PortID) := do
  let (y, p) ← x.toXBar.recvReqRetry port
  .ok ({ x with toXBar := y }, p)

/-! ## What a check does -/

variable {x x' : CxlXBar} {env : Env} {id : PortID} {pkt : Packet} {o : Outcome}

/-- The request is entered in `routeTo` whether or not the check is taken, and no
layer hears of it. -/
theorem sendCheck_ok (h : x.sendCheck env id pkt = .ok (x', o)) :
    pkt.req ∉ x.routeTo ∧ x'.routeTo = x.routeTo.insert pkt.req id ∧
      x'.reqLayers = x.reqLayers ∧ x'.bias = x.bias ∧ XBar.Static x.toXBar x'.toXBar := by
  unfold sendCheck at h
  split at h
  · cases h
  · rename_i hnew
    obtain ⟨port, -, h⟩ := bind_eq_ok.mp h
    split at h <;> cases h <;> exact ⟨hnew, rfl, rfl, rfl, ⟨rfl, rfl, rfl⟩⟩

/-- A request of the processor on a page in host bias is a check, if the device's
registers can be reached. -/
theorem portRecvTimingReq_host (ha : inCxlMem pkt.addr = true)
    (hb : Dcoh.hostBias x.bias (Dcoh.pageNum pkt.addr) = true) :
    x.portRecvTimingReq env 1 pkt = (x.findAddr 0x15000000 >>= fun _ =>
      sendCheck { x with bias := Function.update x.bias (Dcoh.pageNum pkt.addr) (some true) }
        env 1 pkt) := by
  unfold portRecvTimingReq checkBias
  rw [if_pos ha, Dcoh.isHostBiasMode_ok x.bias ha, hb]
  cases x.findAddr 0x15000000 with
  | error e => rfl
  | ok port => rfl

end CxlXBar

end Gem5Cxl.L2
