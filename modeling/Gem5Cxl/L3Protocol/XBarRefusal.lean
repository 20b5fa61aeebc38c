import Gem5Cxl.L2Machine.HostXBar

/-!
# Refusals of the host's crossbar

A request is refused if its layer is taken, or if the component behind the
crossbar refuses it, and is offered again later. The crossbar should then do
with it what it would have done at first: a request that must snoop the CXL
device should go to the root complex however often it is refused.

But the crossbar chooses the port before it tries the layer, and choosing has
effects: the request is retagged, and a `ReadExReq` takes its address out of
`fake_snoop_filter`. A retagged request does not look at the set again.

* `Refusals`: a request offered and refused any number of times, with whatever
  else happens in between that leaves it and the set alone.
* `Transparent`: what should hold after that.
* `refusals_transparent_iff`: it holds exactly for the requests that need not snoop.
* `retry_bypasses_device`: a `ReadExReq` that is refused once, because the layer
  is taken or because the root complex refuses it, goes to memory when retried.
-/
namespace Gem5Cxl.L3.XBarRefusal

open Core L1 L2 HostXBar

/-- The same request again. The snoop flags may have changed. -/
structure SameRequest (pkt pkt' : Packet) : Prop where
  req : pkt'.req = pkt.req
  addr : pkt'.addr = pkt.addr
  cmd : pkt'.cmd = pkt.cmd

/-- The set is the same, and the request of `pkt` has the same type. -/
structure Unchanged (pkt : Packet) (x x' : HostXBar) : Prop where
  filter : x'.fakeSnoopFilter = x.fakeSnoopFilter
  type : (x'.req pkt.req).cxlPacketType = (x.req pkt.req).cxlPacketType

/-- The same crossbar at another time. -/
structure SameXBar (x x' : HostXBar) : Prop where
  center : x'.centerXbar = x.centerXbar
  static : XBar.Static x.toXBar x'.toXBar

/-- One offer of the request that the crossbar refuses. -/
def Refusal (src : PortID) (pkt : Packet) (x x' : HostXBar) : Prop :=
  ∃ env pkt' o, SameRequest pkt pkt' ∧ x.recvTimingReq env src pkt' = .ok (x', o) ∧
    o.success = false

/-- The request is offered in `x`, refused at least once, and last refused into `x'`.
Between two offers anything may happen, but for the set and the type of the request. -/
inductive Refusals (src : PortID) (pkt : Packet) (x : HostXBar) : HostXBar → Prop
  | once {x' : HostXBar} : Refusal src pkt x x' → Refusals src pkt x x'
  | again {y y' x' : HostXBar} : Refusals src pkt x y → SameXBar y y' → Unchanged pkt y y' →
      Refusal src pkt y' x' → Refusals src pkt x x'

/-- Refusals from `x` to `x'` have left no trace on what the crossbar will do with
the request: the set and its type are as before, and if it is accepted now, it is
sent where it would have been sent at first. -/
structure Transparent (src : PortID) (pkt : Packet) (x x' : HostXBar) : Prop where
  unchanged : Unchanged pkt x x'
  retry : ∀ {y y' z z' : HostXBar} {env env' : Env} {p p' : Packet} {m m' : PortID},
    SameXBar x y → Unchanged pkt x y → SameXBar x' y' → Unchanged pkt x' y' →
    SameRequest pkt p → SameRequest pkt p' →
    y.recvTimingReq env src p = .ok (z, .sent m) →
    y'.recvTimingReq env' src p' = .ok (z', .sent m') → m' = m

section Refused

variable {src : PortID} {pkt pkt' : Packet} {x y x' : HostXBar}

theorem SameXBar.trans (h : SameXBar x y) (h' : SameXBar y x') : SameXBar x x' :=
  ⟨h'.1.trans h.1, h.2.trans h'.2⟩

theorem Unchanged.trans (h : Unchanged pkt x y) (h' : Unchanged pkt y x') : Unchanged pkt x x' :=
  ⟨h'.1.trans h.1, h'.2.trans h.2⟩

theorem mustSnoop_congr (hx : SameXBar x y) (hu : Unchanged pkt x y) (hp : SameRequest pkt pkt') :
    y.mustSnoop pkt' = x.mustSnoop pkt := by
  unfold mustSnoop
  rw [hp.req, hp.addr, hx.center, hu.filter, hu.type]

theorem mustSnoop_type (h : x.mustSnoop pkt = true) :
    (x.req pkt.req).cxlPacketType = .defaultPacket := by
  simp only [mustSnoop, Bool.and_eq_true, decide_eq_true_eq] at h
  exact h.1.2

theorem unchanged_of_refusal (h : Refusal src pkt x x') (hs : x.mustSnoop pkt = false) :
    SameXBar x x' ∧ Unchanged pkt x x' := by
  obtain ⟨env, p, o, hp, h, ho⟩ := h
  have hs' : x.mustSnoop p = false := by
    rw [← hs]
    exact mustSnoop_congr ⟨rfl, rfl, rfl, rfl⟩ ⟨rfl, rfl⟩ hp
  obtain ⟨hc, hf, hstatic, ⟨hreq, -⟩ | ⟨m, r, rfl, -⟩⟩ := recvTimingReq_frame h
  · refine ⟨⟨hc, hstatic⟩, ?_, ?_⟩
    · rw [hf, filterAfter, if_neg (by simp [hs'])]
    · rw [hreq, reqAfter, if_neg (by simp [hs'])]
  · cases ho

theorem type_of_refusal (h : Refusal src pkt x x') (hs : x.mustSnoop pkt = true) :
    SameXBar x x' ∧ (x'.req pkt.req).cxlPacketType = .cxlCacheH2DReq := by
  obtain ⟨env, p, o, hp, h, ho⟩ := h
  have hs' : x.mustSnoop p = true := by
    rw [← hs]
    exact mustSnoop_congr ⟨rfl, rfl, rfl, rfl⟩ ⟨rfl, rfl⟩ hp
  obtain ⟨hc, -, hstatic, ⟨hreq, -⟩ | ⟨m, r, rfl, -⟩⟩ := recvTimingReq_frame h
  · refine ⟨⟨hc, hstatic⟩, ?_⟩
    rw [hreq, reqAfter, if_pos hs', retag, hp.req]
    simp
  · cases ho

theorem unchanged_of_refusals (h : Refusals src pkt x x') (hs : x.mustSnoop pkt = false) :
    SameXBar x x' ∧ Unchanged pkt x x' := by
  induction h with
  | once h => exact unchanged_of_refusal h hs
  | again _ hx hu h ih =>
    obtain ⟨hx0, hu0⟩ := ih
    have hx1 := hx0.trans hx
    have hu1 := hu0.trans hu
    obtain ⟨hx2, hu2⟩ := unchanged_of_refusal h
      ((mustSnoop_congr hx1 hu1 ⟨rfl, rfl, rfl⟩).trans hs)
    exact ⟨hx1.trans hx2, hu1.trans hu2⟩

/-- Once retagged, the request stays so, however often it is refused. -/
theorem type_of_refusals (h : Refusals src pkt x x') (hs : x.mustSnoop pkt = true) :
    (x'.req pkt.req).cxlPacketType = .cxlCacheH2DReq := by
  induction h with
  | once h => exact (type_of_refusal h hs).2
  | @again y y' x' _ _ hu h ih =>
    have hy : (y'.req pkt.req).cxlPacketType = .cxlCacheH2DReq := hu.type.trans ih
    have hy' : y'.mustSnoop pkt = false := by
      unfold mustSnoop
      rw [hy]
      simp
    exact (unchanged_of_refusal h hy').2.type.trans hy

end Refused

/-- **Refusals.** A request keeps its way through any number of refusals exactly
if it need not snoop the device. -/
theorem refusals_transparent_iff {src : PortID} {pkt : Packet} {x x' : HostXBar}
    (h : Refusals src pkt x x') : Transparent src pkt x x' ↔ x.mustSnoop pkt = false := by
  constructor
  · intro ht
    by_contra hs
    rw [Bool.not_eq_false] at hs
    have htype := ht.unchanged.type
    rw [type_of_refusals h hs, mustSnoop_type hs] at htype
    cases htype
  · intro hs
    obtain ⟨hx, hu⟩ := unchanged_of_refusals h hs
    refine ⟨hu, ?_⟩
    intro y y' z z' env env' p p' m m' hxy huy hxy' huy' hp hp' hm hm'
    -- neither offer snoops, and the address has one port
    have hy : y.mustSnoop p = false := (mustSnoop_congr hxy huy hp).trans hs
    have hy' : y'.mustSnoop p' = false :=
      (mustSnoop_congr (hx.trans hxy') (hu.trans huy') hp').trans hs
    obtain ⟨-, -, -, ⟨-, hno⟩ | ⟨n, r, hn, ht, -⟩⟩ := recvTimingReq_frame hm
    · exact absurd rfl (hno m)
    obtain ⟨-, -, -, ⟨-, hno⟩ | ⟨n', r', hn', ht', -⟩⟩ := recvTimingReq_frame hm'
    · exact absurd rfl (hno m')
    cases hn
    cases hn'
    rw [target, if_neg (by simp [hy]), hp.addr, hxy.static.findAddr] at ht
    rw [target, if_neg (by simp [hy']), hp'.addr, (hx.trans hxy').static.findAddr, ht] at ht'
    cases ht'
    rfl

/-- The centre crossbar, with the root complex on port 0 and memory on port 1; the
device may have the first line of host memory. -/
def center (layers : PortID → Layer PortID) : HostXBar :=
  { portMap := [(⟨0x15000000, 0x15040000⟩, 0), (⟨0xA0000000, 0x100000000⟩, 1)]
    pointOfCoherency := true, reqLayers := layers
    centerXbar := true, fakeSnoopFilter := fun a => a = 0xA0000000 }

def readEx (a : Nat) : Packet := { req := 1, cmd := .readExReq, addr := a }

/-- A read of another line is refused by memory and retried: nothing is lost. -/
theorem refusals_transparent_iff_other_line :
    ∃ x', Refusals 0 (readEx 0xA0000040) (center fun _ => {}) x' ∧
      Transparent 0 (readEx 0xA0000040) (center fun _ => {}) x' := by
  have h : Refusals 0 (readEx 0xA0000040) (center fun _ => {}) _ :=
    .once ⟨{ answer := none }, _, .refused, ⟨rfl, rfl, rfl⟩, rfl, rfl⟩
  exact ⟨_, h, (refusals_transparent_iff h).mpr rfl⟩

/-- The crossbar just after the request was refused; the fault case does not occur. -/
def afterRefusal (layers : PortID → Layer PortID) : HostXBar :=
  match (center layers).recvTimingReq { answer := none } 0 (readEx 0xA0000000) with
  | .ok (x, _) => x
  | .error _ => center layers

def rootComplexBusy (p : PortID) : Layer PortID := if p = 0 then { state := .busy } else {}

/-- **The device is bypassed.** Accepted at once, the read goes to the root complex.
Refused once, by the root complex or because its layer is taken, it has lost its
entry of the set, and goes to memory when it is retried. -/
theorem retry_bypasses_device :
    (∃ z, (center fun _ => {}).recvTimingReq { answer := some {} } 0 (readEx 0xA0000000) =
      .ok (z, .sent 0)) ∧
    ∀ layers ∈ [fun _ => {}, rootComplexBusy],
      Refusals 0 (readEx 0xA0000000) (center layers) (afterRefusal layers) ∧
      (afterRefusal layers).fakeSnoopFilter 0xA0000000 = false ∧
      (∃ z, (afterRefusal layers).recvTimingReq { answer := some {} } 0 (readEx 0xA0000000) =
        .ok (z, .sent 1)) ∧
      ¬ Transparent 0 (readEx 0xA0000000) (center layers) (afterRefusal layers) := by
  refine ⟨⟨_, rfl⟩, ?_⟩
  have hlost : ∀ layers, (afterRefusal layers).fakeSnoopFilter 0xA0000000 = false →
      ¬ Transparent 0 (readEx 0xA0000000) (center layers) (afterRefusal layers) := by
    intro layers h ht
    have hf := congrFun ht.unchanged.filter 0xA0000000
    rw [h] at hf
    cases hf
  intro layers hl
  rcases List.mem_pair.mp hl with rfl | rfl
  · exact ⟨.once ⟨{ answer := none }, _, .refused, ⟨rfl, rfl, rfl⟩, rfl, rfl⟩, rfl, ⟨_, rfl⟩,
      hlost _ rfl⟩
  · exact ⟨.once ⟨{ answer := none }, _, .busy, ⟨rfl, rfl, rfl⟩, rfl, rfl⟩, rfl, ⟨_, rfl⟩,
      hlost _ rfl⟩

end Gem5Cxl.L3.XBarRefusal
