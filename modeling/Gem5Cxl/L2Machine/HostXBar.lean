import Gem5Cxl.L2Machine.CoherentXBar

/-!
# The host's crossbar (`CXLHostXBar`)

The host's centre crossbar decides which accesses to host memory have to snoop
the CXL device. It keeps a set of addresses, `fake_snoop_filter`: an address
enters it when the response to a device read of it passes (`recvTimingResp`).
`findPort` sends a host request for an address of the set to the root complex
instead of memory, retagged as a `CXLcacheH2DReq`; a `ReadExReq` takes the
address out of the set, a `ReadSharedReq` leaves it in, and any other command
panics.

The set holds the addresses of packets, not those of lines.

* `mustSnoop`: the test that sends a request to the root complex.
* `findPort_ok`: everything `findPort` does, which is more than finding a port.
* `recvTimingReq_frame`: a request changes the set in `findPort` only, before it
  is known whether the packet is taken.
-/
namespace Gem5Cxl.L2

open Core L1 Function

structure HostXBar extends XBar where
  centerXbar : Bool
  fakeSnoopFilter : Nat → Bool := fun _ => false

namespace HostXBar

variable (x : HostXBar)

/-- mirrors mem/cxl_host_xbar.cc:1346-1351 -/
def setFakeSF (a : Nat) : HostXBar :=
  { x with fakeSnoopFilter := update x.fakeSnoopFilter a true }

/-- mirrors mem/cxl_host_xbar.cc:1361-1367 -/
def eraseFakeSF (a : Nat) : Except Fault HostXBar :=
  if x.fakeSnoopFilter a then
    .ok { x with fakeSnoopFilter := update x.fakeSnoopFilter a false }
  else .error (.panic "erase addr failed in fake snoop filter\n")

/-- `pkt->req->cxl_packet_type = CXLPacketType::CXLcacheH2DReq`. -/
def retag (q : ReqId) : HostXBar :=
  { x with req := update x.req q { x.req q with cxlPacketType := .cxlCacheH2DReq } }

/-- A host request whose address may be cached by the device. -/
def mustSnoop (pkt : Packet) : Bool :=
  x.centerXbar && inHostMem pkt.addr && (x.req pkt.req).cxlPacketType = .defaultPacket &&
    x.fakeSnoopFilter pkt.addr

/-- What becomes of the set. mirrors mem/cxl_host_xbar.cc:1379-1387 -/
def updateFakeSF (pkt : Packet) : Except Fault HostXBar :=
  if pkt.cmd = .readSharedReq then .ok x
  else if pkt.cmd = .readExReq then x.eraseFakeSF pkt.addr
  else .error (.panic "Unexpected cxl access request : %s")

/-- mirrors mem/cxl_host_xbar.cc:1369-1399 -/
def findPort (pkt : Packet) : Except Fault (HostXBar × PortID) :=
  if x.mustSnoop pkt then do
    let x1 ← (x.retag pkt.req).updateFakeSF pkt
    let port ← x1.findRange 0x15000000 (0x15000000 + 0x40000)
    .ok (x1, port)
  else do
    let port ← x.findAddr pkt.addr
    .ok (x, port)

/-- A response that is on its way from the device back to host memory is not
shown to the caches, and in the centre is not routed here.
mirrors mem/cxl_host_xbar.cc:215,383-396 -/
def variant (center : Bool) : Variant where
  snoops t := t ≠ .cxlCacheH2DResp
  route t sunk :=
    if t ≠ .cxlCacheH2DResp then
      if t = .hostBiasCheck ∧ sunk = false then .probe else .enter
    else if center then .check
    else .enter

/-- mirrors mem/cxl_host_xbar.cc:152-518 -/
def recvTimingReq (env : Env) (src : PortID) (pkt : Packet) :
    Except Fault (HostXBar × Outcome) :=
  if pkt.expressSnoop ≠ pkt.cacheResponding then .error (.assertion .expressSnoopResponding)
  else do
    let (x1, port) ← x.findPort pkt
    let (y, o) ← x1.toXBar.recvTimingReqOn (variant x.centerXbar) env port src pkt
    .ok ({ x1 with toXBar := y }, o)

/-- A response to the device, but not to a snoop of it. mirrors mem/cxl_host_xbar.cc:627-635 -/
def entersFakeSF (pkt : Packet) : Bool :=
  x.centerXbar && (x.req pkt.req).cxlPacketType ≠ .defaultPacket && inHostMem pkt.addr &&
    (x.req pkt.req).cxlPacketType ≠ .cxlCacheH2DResp

/-- mirrors mem/cxl_host_xbar.cc:520-662 -/
def recvTimingResp (x : HostXBar) (src : PortID) (pkt : Packet) :
    Except Fault (HostXBar × Bool) := do
  let (y, taken) ← x.toXBar.recvTimingResp src pkt
  let x1 := { x with toXBar := y }
  if taken && x.entersFakeSF pkt then .ok (x1.setFakeSF pkt.addr, taken)
  else .ok (x1, taken)

/-- The last assertion compares the port that `findPort` answers, so its effects
are part of it. mirrors mem/cxl_host_xbar.cc:664-730 -/
def recvTimingSnoopReq (x : HostXBar) (snoop : Snoop) (src : PortID) (pkt : Packet) :
    Except Fault HostXBar := do
  let y ← x.toXBar.recvTimingSnoopReq snoop src pkt
  let (x1, port) ← findPort { x with toXBar := y } pkt
  if port = src then .ok x1 else .error (.assertion .snoopFromPort)

/-- Unlike `recvTimingResp`, it leaves the set alone. mirrors mem/cxl_host_xbar.cc:732-897 -/
def recvTimingSnoopResp (x : HostXBar) (src : PortID) (pkt : Packet) :
    Except Fault (HostXBar × Bool) := do
  let (y, taken) ← x.toXBar.recvTimingSnoopResp src pkt
  .ok ({ x with toXBar := y }, taken)

/-! ## What the calls do -/

variable {x x' : HostXBar} {env : Env} {src port : PortID} {pkt : Packet} {o : Outcome}
  {taken : Bool}

/-- The port `findPort` answers. -/
def target (x : HostXBar) (pkt : Packet) : Except Fault PortID :=
  if x.mustSnoop pkt then x.findRange 0x15000000 (0x15000000 + 0x40000) else x.findAddr pkt.addr

/-- The set after `findPort`. -/
def filterAfter (x : HostXBar) (pkt : Packet) : Nat → Bool :=
  if x.mustSnoop pkt = true ∧ pkt.cmd = .readExReq then
    update x.fakeSnoopFilter pkt.addr false
  else x.fakeSnoopFilter

/-- The requests after `findPort`. -/
def reqAfter (x : HostXBar) (pkt : Packet) : ReqId → Request :=
  if x.mustSnoop pkt then (x.retag pkt.req).req else x.req

/-- **`findPort`.** It leaves the crossbar alone exactly if it sends the packet
to the port of its address. -/
theorem findPort_ok (h : x.findPort pkt = .ok (x', port)) :
    x' = { x with fakeSnoopFilter := x.filterAfter pkt, req := x.reqAfter pkt } ∧
      x.target pkt = .ok port := by
  unfold findPort at h
  unfold filterAfter reqAfter target
  split at h
  · rename_i hs
    obtain ⟨x1, h1, h⟩ := bind_eq_ok.mp h
    obtain ⟨p, hp, h⟩ := bind_eq_ok.mp h
    cases h
    simp only [hs, if_true, true_and]
    unfold updateFakeSF at h1
    split at h1
    · rename_i hc
      cases h1
      refine ⟨?_, hp⟩
      simp only [hc, reduceCtorEq, if_false]
      rfl
    split at h1
    · rename_i hc
      unfold eraseFakeSF at h1
      split at h1
      · cases h1
        refine ⟨?_, hp⟩
        simp only [hc, if_true]
        rfl
      · cases h1
    · cases h1
  · rename_i hs
    obtain ⟨p, hp, h⟩ := bind_eq_ok.mp h
    cases h
    simp only [hs]
    exact ⟨rfl, hp⟩

/-- **`recvTimingReq`.** The set is changed in `findPort` and nowhere else,
whatever becomes of the packet. The request is changed there and by the peer
that takes it. -/
theorem recvTimingReq_frame (h : x.recvTimingReq env src pkt = .ok (x', o)) :
    x'.centerXbar = x.centerXbar ∧ x'.fakeSnoopFilter = x.filterAfter pkt ∧
      XBar.Static x.toXBar x'.toXBar ∧
      ((x'.req = x.reqAfter pkt ∧ ∀ m, o ≠ .sent m) ∨
        ∃ m r, o = .sent m ∧ x.target pkt = .ok m ∧ env.answer = some r ∧
          x'.req = update (x.reqAfter pkt) pkt.req r) := by
  unfold recvTimingReq at h
  split at h
  · cases h
  · obtain ⟨⟨x1, port⟩, h1, h⟩ := bind_eq_ok.mp h
    obtain ⟨⟨y, o'⟩, h2, h⟩ := bind_eq_ok.mp h
    cases h
    obtain ⟨rfl, hport⟩ := findPort_ok h1
    obtain ⟨hstatic, hreq⟩ := XBar.recvTimingReqOn_frame h2
    refine ⟨rfl, rfl, { hstatic with }, ?_⟩
    rcases hreq with hreq | ⟨rfl, r, hr, hreq⟩
    · exact .inl hreq
    · exact .inr ⟨port, r, rfl, hport, hr, hreq⟩

theorem recvTimingReq_sent {r : Request} (h : x.recvTimingReq env src pkt = .ok (x', o))
    (hc : pkt.cmd = .readExReq) (ht : x.target pkt = .ok port)
    (hl : (x.reqLayers port).taken = false) (hp : pkt.cacheResponding = false)
    (hs : env.snoop.cacheResponding = false) (ha : env.answer = some r) : o = .sent port := by
  unfold recvTimingReq at h
  split at h
  · cases h
  · obtain ⟨⟨x1, port'⟩, h1, h⟩ := bind_eq_ok.mp h
    obtain ⟨⟨y, o'⟩, h2, h⟩ := bind_eq_ok.mp h
    cases h
    obtain ⟨rfl, hport⟩ := findPort_ok h1
    rw [ht] at hport
    cases hport
    exact XBar.recvTimingReqOn_sent h2 hc hl hp hs ha

theorem recvTimingResp_frame (h : x.recvTimingResp src pkt = .ok (x', taken)) :
    x'.centerXbar = x.centerXbar ∧ XBar.Aside x.toXBar x'.toXBar ∧
      x'.fakeSnoopFilter = if taken && x.entersFakeSF pkt then
        update x.fakeSnoopFilter pkt.addr true else x.fakeSnoopFilter := by
  obtain ⟨⟨y, taken'⟩, hy, h⟩ := bind_eq_ok.mp h
  simp only at h
  have ha := XBar.recvTimingResp_aside _ hy
  split at h
  · rename_i ht
    cases h
    exact ⟨rfl, ha, by rw [if_pos ht]; rfl⟩
  · rename_i ht
    cases h
    exact ⟨rfl, ha, by rw [if_neg ht]⟩

theorem recvTimingSnoopResp_frame (h : x.recvTimingSnoopResp src pkt = .ok (x', taken)) :
    x'.centerXbar = x.centerXbar ∧ XBar.Aside x.toXBar x'.toXBar ∧
      x'.fakeSnoopFilter = x.fakeSnoopFilter := by
  obtain ⟨⟨y, taken'⟩, hy, h⟩ := bind_eq_ok.mp h
  cases h
  exact ⟨rfl, XBar.recvTimingSnoopResp_aside _ hy, rfl⟩

end HostXBar

end Gem5Cxl.L2
