import Gem5Cxl.L2Machine.HostXBar

/-!
# How the host's crossbar calls its snoop filter

The snoop filter asks of its crossbar that `finishRequest` follows the
`lookupRequest` of the same packet: it remembers one line between the two calls,
checks that it is the line of the packet, and puts the remembered value back if
the packet has to be retried.

`CXLHostXBar` does not look up requests of type `CXLcacheH2DResp`, the answers of
the device on their way to host memory, but it does finish them. What
`finishRequest` then finds is left from some request before.

* `driven`: every `finishRequest` comes right after its `lookupRequest`.
* `Careful`: no `CXLcacheH2DResp` gets as far as `finishRequest`.
* `driven_iff_careful`: one request keeps the calls in order exactly if it is
  careful.
* `careful_runs_driven`: in a run of careful requests the calls are in order, no
  call fails on the line it finds, and a request that is turned away leaves every
  entry of the filter as it was.
* `answer_finishes_other_lookup`: after a read of a line, the answer for another
  line fails the filter's assertion, and the refused answer for the same line
  throws away what the filter knew of the read.
* `refused_restores`: a lookup that is refused changes no entry, except that an
  empty one is erased (`refused_erases_empty`).
-/
namespace Gem5Cxl.L3.FilterCalls

open Core L1 L2 XBar Machine

/-! ## Only `finishRequest` fails on the line it finds -/

/-- The iterator is at another line than that of the packet, or at none. -/
def FinishFault : Fault → Prop
  | .assertion .finishFollowsLookup | .danglingIterator => True
  | _ => False

variable {responding : Bool} {snoop : Snoop}

section Faults

variable {x : XBar} {v : Variant} {env : Env} {port src : PortID} {pkt pkt' : Packet} {o : Outcome}
  {dest : Bool} {P : Type} (l : Layer P)

@[simp] theorem avoids_tryTiming [DecidableEq P] (src : P) :
    Avoids FinishFault (l.tryTiming src) := by
  simp [Layer.tryTiming, FinishFault]

@[simp] theorem avoids_succeededTiming : Avoids FinishFault l.succeededTiming := by
  simp [Layer.succeededTiming, Layer.occupyLayer, FinishFault]

@[simp] theorem avoids_failedTiming : Avoids FinishFault (x.failedTiming port src) := by
  simp [failedTiming, Layer.failedTiming, Layer.occupyLayer, FinishFault]

@[simp] theorem avoids_winLayer : Avoids FinishFault (x.winLayer port src pkt) := by
  simp [winLayer]

@[simp] theorem avoids_lookupRequest (f : SnoopFilter) (r : Request) :
    Avoids FinishFault (f.lookupRequest pkt r src) := by
  have hnew : ∀ i, Avoids FinishFault (f.newItem pkt r src i) := by
    simp [SnoopFilter.newItem, SnoopFilter.requestItem, FinishFault]
  simp [SnoopFilter.lookupRequest, hnew]

@[simp] theorem avoids_snoopAbove : Avoids FinishFault (x.snoopAbove v env src pkt) := by
  unfold snoopAbove
  cases x.snoopFilter <;> simp

@[simp] theorem avoids_deliver : Avoids FinishFault (x.deliver env responding port pkt) := by
  unfold deliver
  cases env.answer <;> simp [FinishFault]

@[simp] theorem avoids_checkRoutes : Avoids FinishFault x.checkRoutes := by
  simp [checkRoutes, FinishFault]

@[simp] theorem avoids_addRoute {a : RouteAction} {q : ReqId} :
    Avoids FinishFault (x.addRoute a q src) := by
  cases a <;> simp [addRoute, FinishFault]

@[simp] theorem avoids_record : Avoids FinishFault (x.record v port src pkt pkt' o) := by
  simp [record, addSnoop, succeededTiming, FinishFault]

@[simp] theorem avoids_completeClean : Avoids FinishFault (x.completeClean v dest src pkt o) := by
  have hclose : ∀ d, Avoids FinishFault (x.closeClean src pkt d) := by
    rintro (- | rsp)
    · simp [closeClean, FinishFault]
    · cases h : x.routeTo.lookup rsp.req <;> simp [closeClean, h, FinishFault]
  cases hd : x.outstandingCMO.lookup pkt.packetId <;>
    simp [completeClean, openClean, hd, hclose, FinishFault]

@[simp] theorem avoids_updateResponse {p : PortID} :
    Avoids FinishFault (x.updateResponse pkt p) := by
  have hfilter : ∀ (f : SnoopFilter) r, Avoids FinishFault (f.updateResponse pkt r p) := by
    intro f r
    cases hi : f.find (f.lineAddr pkt.addr pkt.isSecure) <;> simp [SnoopFilter.updateResponse, hi, FinishFault]
  unfold XBar.updateResponse
  cases x.snoopFilter <;> simp [hfilter]

@[simp] theorem avoids_conclude : Avoids FinishFault (x.conclude v dest port src pkt pkt' o) := by
  have hrespond : ∀ (x : XBar) rsp, Avoids FinishFault (x.respond rsp) := by
    rintro x (- | ⟨rsp, p⟩) <;> simp [respond, Packet.makeResponse, FinishFault]
  simp [conclude, hrespond, FinishFault]

@[simp] theorem avoids_recvTimingResp : Avoids FinishFault (x.recvTimingResp src pkt) := by
  unfold recvTimingResp
  split <;> simp [FinishFault]

@[simp] theorem avoids_recvTimingSnoopReq :
    Avoids FinishFault (x.recvTimingSnoopReq snoop src pkt) := by
  have hfilter : ∀ (f : SnoopFilter) r, Avoids FinishFault (f.lookupSnoop pkt r) := by
    intro f r
    cases hi : f.find (f.lineAddr pkt.addr pkt.isSecure) <;> simp [SnoopFilter.lookupSnoop, hi, FinishFault]
  have hlookup : Avoids FinishFault (x.lookupSnoop snoop pkt) := by
    unfold XBar.lookupSnoop
    cases x.snoopFilter <;> simp [hfilter]
  simp [recvTimingSnoopReq, hlookup, FinishFault]

@[simp] theorem avoids_recvTimingSnoopResp :
    Avoids FinishFault (x.recvTimingSnoopResp src pkt) := by
  have hforward : Avoids FinishFault (x.updateSnoopForward pkt) := by
    unfold XBar.updateSnoopForward
    cases x.snoopFilter with
    | none => simp
    | some f =>
      cases hi : f.find (f.lineAddr pkt.addr pkt.isSecure) <;> simp [SnoopFilter.updateSnoopForward, hi, FinishFault]
  have hreturn : ∀ rsp req, Avoids FinishFault (x.updateSnoopResponse pkt rsp req) := by
    unfold XBar.updateSnoopResponse
    cases x.snoopFilter <;> simp [SnoopFilter.updateSnoopResponse, FinishFault]
  unfold recvTimingSnoopResp
  split
  · simp [FinishFault]
  · simp [returnSnoopResp, forwardSnoopResp, hforward, hreturn, FinishFault]

@[simp] theorem avoids_findRange {lo hi : Nat} : Avoids FinishFault (x.findRange lo hi) := by
  unfold findRange
  split <;> simp [FinishFault]

@[simp] theorem avoids_findPort {x : HostXBar} : Avoids FinishFault (x.findPort pkt) := by
  simp [HostXBar.findPort, HostXBar.updateFakeSF, HostXBar.eraseFakeSF, findAddr, FinishFault]

end Faults

/-! ## The calls one request makes -/

/-- The request is completed in the filter without having been looked up: it is
not shown to the caches, and it wins its layer. -/
def skipsLookup (x : XBar) (v : Variant) (port : PortID) (pkt : Packet) : Bool :=
  !v.snoops (x.req pkt.req).cxlPacketType && x.snoopCaches pkt &&
    (pkt.expressSnoop || !(x.reqLayers port).taken)

/-- What the filter is told of a request: nothing, its lookup and its completion,
or its completion only. -/
inductive Served (v : Variant) (port : PortID) (pkt : Packet) (retry : Bool) (x x' : XBar) : Prop
  | unseen (filter : x'.snoopFilter = x.snoopFilter) (calls : x'.filterCalls = x.filterCalls)
      (skips : x.snoopFilter = none ∨ skipsLookup x v port pkt = false)
  | paired (f f' : SnoopFilter) (before : x.snoopFilter = some f) (after : x'.snoopFilter = some f')
      (completed : SnoopFilter.Completed f f' (f.lineAddr pkt.addr pkt.isSecure) retry)
      (calls : x'.filterCalls = .finishRequest pkt :: .lookupRequest pkt :: x.filterCalls)
      (skips : skipsLookup x v port pkt = false)
  | alone (f f' : SnoopFilter) (before : x.snoopFilter = some f) (after : x'.snoopFilter = some f')
      (finished : f.finishRequest retry pkt.addr pkt.isSecure = .ok f')
      (calls : x'.filterCalls = .finishRequest pkt :: x.filterCalls)
      (skips : skipsLookup x v port pkt = true)

section Request

variable {x x' : XBar} {v : Variant} {env : Env} {port src : PortID} {pkt : Packet} {o : Outcome}
  {pkt' : Packet}

section Steps

variable {x1 x2 x3 : XBar} (hb : Books x x1)
  (hwon : (pkt.expressSnoop || !(x.reqLayers port).taken) = true)
  (h2 : x1.snoopAbove v env src pkt = .ok (x2, pkt'))
  (h3 : x2.deliver env responding port pkt' = .ok (x3, o))
include hb hwon h2 h3

/-- A packet has won its layer and been delivered: the filter has not heard of it,
or it has looked up its line. -/
theorem looked_up_or_unseen : x3.snoopCaches pkt = x.snoopCaches pkt ∧
      ((x3.snoopFilter = x.snoopFilter ∧ x3.filterCalls = x.filterCalls ∧
          (x.snoopFilter = none ∨ skipsLookup x v port pkt = x.snoopCaches pkt)) ∨
        ∃ f f' d, x.snoopFilter = some f ∧ x.snoopCaches pkt = true ∧
          f.lookupRequest pkt (x.req pkt.req) src = .ok (f', d) ∧ x3.snoopFilter = some f' ∧
          x3.filterCalls = .lookupRequest pkt :: x.filterCalls ∧
          skipsLookup x v port pkt = false) := by
  obtain ⟨_, _, _, _, rfl⟩ := hb
  -- the delivery changes nothing that the completion looks at
  have hx3 : x3.snoopFilter = x2.snoopFilter ∧ x3.filterCalls = x2.filterCalls ∧
      x3.snoopCaches pkt = x2.snoopCaches pkt := by
    rcases deliver_ok h3 with ⟨rfl, -⟩ | ⟨r, -, rfl, -⟩ <;> exact ⟨rfl, rfl, rfl⟩
  obtain ⟨hf3, hc3, hs3⟩ := hx3
  rcases (snoopAbove_ok h2).2 with ⟨rfl, hno⟩ | ⟨f, f', d, hf, hs, hl, rfl⟩
  · refine ⟨hs3, .inl ⟨hf3, hc3, ?_⟩⟩
    rcases hno with hno | hno
    · right
      unfold skipsLookup
      rw [hwon]
      cases hv : v.snoops (x.req pkt.req).cxlPacketType with
      | false => simp
      | true =>
        rw [hv] at hno
        simp [show x.snoopCaches pkt = false from hno]
    · exact .inl hno
  · rw [Bool.and_eq_true] at hs
    exact ⟨hs3, .inr ⟨f, f', d, hf, hs.2, hl, hf3, hc3, by simp [skipsLookup, hs.1]⟩⟩

theorem served_of_steps {x4 : XBar}
    (h4 : x3.finishFilter (o = .refused) pkt = .ok x4) : Served v port pkt (o = .refused) x x4 := by
  obtain ⟨hs, ⟨hf, hc, hskip⟩ | ⟨f, f', d, hf, hon, hl, hf', hc, hskip⟩⟩ :=
    looked_up_or_unseen hb hwon h2 h3
  · rcases finishFilter_ok h4 with ⟨rfl, hno⟩ | ⟨g, g', hg, hon, hfin, rfl⟩
    · refine .unseen hf hc ?_
      rcases hskip with h | h
      · exact .inl h
      · rw [h, ← hs, ← hf]
        exact hno
    · rw [hf] at hg
      rw [hs] at hon
      refine .alone g g' hg rfl hfin (congrArg _ hc) ?_
      rcases hskip with h | h
      · rw [hg] at h
        cases h
      · exact h.trans hon
  · rcases finishFilter_ok h4 with ⟨rfl, hno⟩ | ⟨g, g', hg, -, hfin, rfl⟩
    · rw [hf', hs, hon] at hno
      simp at hno
    · rw [hf'] at hg
      cases hg
      obtain ⟨f'', hfin', hdone⟩ := SnoopFilter.finishRequest_after_lookup hl (decide (o = .refused))
      rw [hfin] at hfin'
      cases hfin'
      exact .paired f g' hf rfl hdone (congrArg _ hc) hskip

end Steps

/-- **The calls of one request.** After them the filter hears of a direct response
at most, and of a packet that is turned away nothing. -/
theorem recvTimingReqOn_served (h : x.recvTimingReqOn v env port src pkt = .ok (x', o)) :
    ∃ y, Served v port pkt (!o.success) x y ∧ Aside y x' ∧
      (o.success = false → x'.snoopFilter = y.snoopFilter) := by
  rcases recvTimingReqOn_ok h with ⟨hb, ho⟩ | ⟨x1, x2, x3, x4, pkt', hb, hwon, h2, h3, h4, h5⟩
  · refine ⟨x', ?_, .refl x', fun _ => rfl⟩
    obtain ⟨_, _, _, _, rfl⟩ := hb
    refine .unseen rfl rfl (.inr ?_)
    rcases ho with ⟨-, hlost⟩ | ⟨-, hv, -⟩
    · simp [skipsLookup, hlost]
    · simp [skipsLookup, hv]
  · have hretry : decide (o = .refused) = !o.success := by
      rcases deliver_ok h3 with ⟨-, rfl | rfl | rfl⟩ | ⟨r, -, -, rfl⟩ <;> rfl
    refine ⟨x4, hretry ▸ served_of_steps hb hwon h2 h3 h4, (conclude_ok h5).2, ?_⟩
    intro ho
    have hr : o = .refused := by simpa [ho] using hretry
    subst hr
    obtain ⟨-, _, _, _, _, rfl⟩ := conclude_refused h5
    rfl

theorem avoids_recvTimingReqOn (hskip : x.snoopFilter = none ∨ skipsLookup x v port pkt = false) :
    Avoids FinishFault (x.recvTimingReqOn v env port src pkt) := by
  refine avoids_winLayer.bind fun tried h1 => ?_
  obtain ⟨hb, hwon⟩ := winLayer_ok h1
  simp only [avoids_ite]
  refine ⟨fun _ => .ok _, fun hw => ⟨fun _ => avoids_failedTiming.bind fun _ _ => .ok _, fun _ => ?_⟩⟩
  rw [Bool.not_eq_false, hwon] at hw
  refine avoids_snoopAbove.bind fun shown h2 => avoids_deliver.bind fun sent h3 => ?_
  obtain ⟨x3, o⟩ := sent
  refine .bind ?_ fun _ _ => avoids_conclude
  unfold finishFilter
  obtain ⟨hs, ⟨hf, -, hno⟩ | ⟨f, f', d, -, -, hl, hf, -⟩⟩ := looked_up_or_unseen hb hw h2 h3
  · -- it was not looked up, so it must not be completed
    rw [hs, hf]
    split
    · exact .ok _
    · rename_i f hf
      have hoff : x.snoopCaches pkt = false := by
        rw [hf] at hno hskip
        simp only [reduceCtorEq, false_or] at hno hskip
        exact hno.symm.trans hskip
      rw [hoff]
      exact .ok _
  · obtain ⟨f'', hfin, -⟩ := SnoopFilter.finishRequest_after_lookup hl (decide (o = .refused))
    rw [hf]
    simp only [avoids_ite]
    refine ⟨fun _ => ?_, fun _ => .ok _⟩
    rw [hfin]
    exact .ok _

end Request

/-! ## The order of the calls -/

/-- Every completion comes right after the lookup of its packet. The newest call is
the first of the list. -/
def driven : List FilterCall → Bool
  | [] => true
  | .finishRequest pkt :: cs => cs.head? = some (.lookupRequest pkt) && driven cs
  | _ :: cs => driven cs

/-- No lookup is waiting for its completion. -/
def settled (cs : List FilterCall) : Bool := !(cs.head? matches some (.lookupRequest _))

theorem driven_cons_aside {c : FilterCall} (cs : List FilterCall) (hc : c.ofRequest = false) :
    driven (c :: cs) = driven cs ∧ settled (c :: cs) = true := by
  cases c with
  | lookupRequest pkt => cases hc
  | finishRequest pkt => cases hc
  | lookupSnoop pkt | updateSnoopResponse pkt | updateSnoopForward pkt | updateResponse pkt => exact ⟨rfl, rfl⟩

/-- Between requests the calls are in order, and no entry of the filter is empty. -/
structure Inv (x : XBar) : Prop where
  driven : driven x.filterCalls = true
  settled : settled x.filterCalls = true
  tidy : ∀ f, x.snoopFilter = some f → f.Tidy

section Order

variable {x x' : XBar} {v : Variant} {env : Env} {port src : PortID} {pkt : Packet} {o : Outcome}
  {retry : Bool}

theorem Inv.of_same (hi : Inv x) (hf : x'.snoopFilter = x.snoopFilter)
    (hc : x'.filterCalls = x.filterCalls) : Inv x' := by
  refine ⟨?_, ?_, ?_⟩
  · rw [hc]
    exact hi.driven
  · rw [hc]
    exact hi.settled
  · rw [hf]
    exact hi.tidy

theorem Inv.aside (hi : Inv x) (h : Aside x x') : Inv x' := by
  rcases h.filter with ⟨hf, hc⟩ | ⟨f, f', c, hf, ht, hc, hf', hcs⟩
  · exact hi.of_same hf hc
  · obtain ⟨hd, hset⟩ := driven_cons_aside x.filterCalls hc
    refine ⟨?_, ?_, ?_⟩
    · rw [hcs, hd]
      exact hi.driven
    · rw [hcs]
      exact hset
    · intro g hg
      rw [hf'] at hg
      cases hg
      exact ht (hi.tidy f hf)

/-- The calls that come beside the requests do not change the order. -/
theorem driven_aside (h : Aside x x') : driven x'.filterCalls = driven x.filterCalls := by
  rcases h.filter with ⟨-, hc⟩ | ⟨f, f', c, -, -, hc, -, hcs⟩
  · rw [hc]
  · rw [hcs]
    exact (driven_cons_aside x.filterCalls hc).1

theorem Inv.served (hi : Inv x) (h : Served v port pkt retry x x')
    (hskip : x.snoopFilter = none ∨ skipsLookup x v port pkt = false) : Inv x' := by
  cases h with
  | unseen hf hc _ => exact hi.of_same hf hc
  | paired f f' hf hf' hdone hc _ =>
    refine ⟨?_, ?_, ?_⟩
    · rw [hc]
      simpa [FilterCalls.driven] using hi.driven
    · rw [hc]
      rfl
    · intro g hg
      rw [hf'] at hg
      cases hg
      exact hdone.tidy (hi.tidy f hf)
  | alone f f' hf _ _ _ hs =>
    rw [hf, hs] at hskip
    simp at hskip

theorem skipsLookup_of_driven (hi : Inv x) (h : Served v port pkt retry x x')
    (hf : x.snoopFilter ≠ none)
    (hd : driven x'.filterCalls = true) : skipsLookup x v port pkt = false := by
  cases h with
  | unseen _ _ hs => exact hs.resolve_left hf
  | paired _ _ _ _ _ _ hs => exact hs
  | alone f f' _ _ _ hc _ =>
    rw [hc] at hd
    simp only [driven, Bool.and_eq_true, decide_eq_true_eq] at hd
    have hset := hi.settled
    rw [settled, hd.1] at hset
    cases hset

theorem find_of_served {f : SnoopFilter} (hi : Inv x) (h : Served v port pkt true x x')
    (hskip : skipsLookup x v port pkt = false) (hf : x.snoopFilter = some f) :
    ∃ f', x'.snoopFilter = some f' ∧ ∀ line, f'.find line = f.find line := by
  cases h with
  | unseen hf' _ _ => exact ⟨f, hf'.trans hf, fun _ => rfl⟩
  | paired g g' hg hg' hdone _ _ =>
    rw [hf] at hg
    cases hg
    refine ⟨g', hg', fun line => ?_⟩
    by_cases hl : line = f.lineAddr pkt.addr pkt.isSecure
    · rw [hl]
      exact hdone.undone rfl (hi.tidy f hf)
    · exact hdone.others line hl
  | alone _ _ _ _ _ _ hs =>
    rw [hskip] at hs
    cases hs

end Order

/-! ## Runs of the host's crossbar -/

/-- `request` is `recvTimingReq`, and so on. Other components may change a request at
any time, and layers are freed and taken at any time. -/
inductive Ev
  | request (env : Env) (src : PortID) (pkt : Packet)
  | response (src : PortID) (pkt : Packet)
  | snoopRequest (snoop : Snoop) (src : PortID) (pkt : Packet)
  | snoopResponse (src : PortID) (pkt : Packet)
  | rewrite (q : ReqId) (r : Request)
  | arbitrate (req : PortID → Layer PortID) (resp : PortID → Layer RespSource)
      (snoop : PortID → Layer PortID)

def step (x : HostXBar) : Ev → Except Fault HostXBar
  | .request env src pkt => do
    let (x', _) ← x.recvTimingReq env src pkt
    .ok x'
  | .response src pkt => do
    let (x', _) ← x.recvTimingResp src pkt
    .ok x'
  | .snoopRequest snoop src pkt => x.recvTimingSnoopReq snoop src pkt
  | .snoopResponse src pkt => do
    let (x', _) ← x.recvTimingSnoopResp src pkt
    .ok x'
  | .rewrite q r => .ok { x with req := Function.update x.req q r }
  | .arbitrate req resp snoop =>
    .ok { x with reqLayers := req, respLayers := resp, snoopLayers := snoop }

/-- The packet is an answer of the device to a snoop, other than a `WriteClean`, and
wins its layer. -/
def careless (x : HostXBar) (pkt : Packet) : Bool :=
  (x.req pkt.req).cxlPacketType = .cxlCacheH2DResp && x.snoopCaches pkt &&
    match x.target pkt with
    | .ok port => pkt.expressSnoop || !(x.reqLayers port).taken
    | .error _ => false

def Careful (x : HostXBar) : Ev → Bool
  | .request _ _ pkt => !careless x pkt
  | _ => true

/-- The filter starts empty. -/
def machine : Machine HostXBar Ev Fault where
  init x := x.filterCalls = [] ∧ ∀ f, x.snoopFilter = some f → f.cachedLocations = ∅
  enabled _ _ := True
  step := step

section Runs

variable {x x' : HostXBar} {env : Env} {src port : PortID} {pkt : Packet} {o : Outcome} {e : Ev}

/-- `findPort` does not make a request an answer of the device, or the other way round. -/
theorem skipsLookup_findPort (h : x.findPort pkt = .ok (x', port)) (c : Bool) :
    skipsLookup x'.toXBar (HostXBar.variant c) port pkt = careless x pkt := by
  obtain ⟨rfl, hport⟩ := HostXBar.findPort_ok h
  have htype : ((x.reqAfter pkt pkt.req).cxlPacketType = .cxlCacheH2DResp) ↔
      (x.req pkt.req).cxlPacketType = .cxlCacheH2DResp := by
    unfold HostXBar.reqAfter
    split
    · rename_i hs
      simp only [HostXBar.mustSnoop, Bool.and_eq_true, decide_eq_true_eq] at hs
      rw [hs.1.2]
      simp [HostXBar.retag]
    · rfl
  unfold careless skipsLookup
  rw [hport]
  simp only [HostXBar.variant, ne_eq, decide_not, Bool.not_not, htype]
  rfl

/-- What `recvTimingReq` does to the filter, with `findPort` out of the way. -/
theorem recvTimingReq_served (hi : Inv x.toXBar) (h : x.recvTimingReq env src pkt = .ok (x', o)) :
    ∃ (x1 y : XBar) (v : Variant) (port : PortID), Inv x1 ∧ x1.snoopFilter = x.snoopFilter ∧
      skipsLookup x1 v port pkt = careless x pkt ∧ Served v port pkt (!o.success) x1 y ∧
      Aside y x'.toXBar ∧ (o.success = false → x'.snoopFilter = y.snoopFilter) := by
  unfold HostXBar.recvTimingReq at h
  split at h
  · cases h
  · obtain ⟨⟨x1, port⟩, h1, h⟩ := bind_eq_ok.mp h
    obtain ⟨⟨y, o'⟩, h2, h⟩ := bind_eq_ok.mp h
    cases h
    have hx1 := (HostXBar.findPort_ok h1).1
    have hf1 : x1.snoopFilter = x.snoopFilter := by rw [hx1]
    have hi1 : Inv x1.toXBar := hi.of_same hf1 (by rw [hx1])
    obtain ⟨z, hserved, haside, hsame⟩ := recvTimingReqOn_served h2
    exact ⟨x1.toXBar, z, _, port, hi1, hf1, skipsLookup_findPort h1 x.centerXbar, hserved, haside,
      hsame⟩

theorem find_of_refused {f : SnoopFilter} (hi : Inv x.toXBar) (hc : careless x pkt = false)
    (h : x.recvTimingReq env src pkt = .ok (x', o)) (ho : o.success = false)
    (hf : x.snoopFilter = some f) :
    ∃ f', x'.snoopFilter = some f' ∧ ∀ line, f'.find line = f.find line := by
  obtain ⟨x1, y, v, port, hi1, hf1, hskip, hserved, -, hsame⟩ := recvTimingReq_served hi h
  rw [ho] at hserved
  rw [hsame ho]
  exact find_of_served hi1 hserved (hskip.trans hc) (hf1.trans hf)

theorem avoids_recvTimingReq (hc : careless x pkt = false) :
    Avoids FinishFault (x.recvTimingReq env src pkt) := by
  unfold HostXBar.recvTimingReq
  split
  · simp [FinishFault]
  · refine avoids_findPort.bind fun found h1 => .bind ?_ fun _ _ => .ok _
    exact avoids_recvTimingReqOn (.inr ((skipsLookup_findPort h1 _).trans hc))

/-- The other calls are beside the requests, but for what `findPort` does. -/
theorem recvTimingSnoopReq_inv (hi : Inv x.toXBar)
    (h : x.recvTimingSnoopReq snoop src pkt = .ok x') : Inv x'.toXBar := by
  obtain ⟨y, hy, h⟩ := bind_eq_ok.mp h
  obtain ⟨⟨x1, port⟩, h1, h⟩ := bind_eq_ok.mp h
  simp only at h
  split at h
  · cases h
    obtain ⟨rfl, -⟩ := HostXBar.findPort_ok h1
    exact (hi.aside (recvTimingSnoopReq_aside y hy)).of_same rfl rfl
  · cases h

theorem inv_step (hi : Inv x.toXBar) (hc : Careful x e = true) (h : step x e = .ok x') :
    Inv x'.toXBar := by
  cases e with
  | request env src pkt =>
    obtain ⟨⟨x1, o⟩, h1, h⟩ := bind_eq_ok.mp h
    cases h
    obtain ⟨z, y, v, port, hi1, -, hskip, hserved, haside, -⟩ := recvTimingReq_served hi h1
    refine (hi1.served hserved (.inr ?_)).aside haside
    simpa [hskip, Careful] using hc
  | response src pkt =>
    obtain ⟨⟨x1, taken⟩, h1, h⟩ := bind_eq_ok.mp h
    cases h
    exact hi.aside (HostXBar.recvTimingResp_frame h1).2.1
  | snoopRequest snoop src pkt => exact recvTimingSnoopReq_inv hi h
  | snoopResponse src pkt =>
    obtain ⟨⟨x1, taken⟩, h1, h⟩ := bind_eq_ok.mp h
    cases h
    exact hi.aside (HostXBar.recvTimingSnoopResp_frame h1).2.1
  | rewrite q r | arbitrate req resp snoop =>
    cases h
    exact hi.of_same rfl rfl

theorem avoids_step (hc : Careful x e = true) : Avoids FinishFault (step x e) := by
  cases e with
  | request env src pkt =>
    exact (avoids_recvTimingReq (by simpa [Careful] using hc)).bind fun _ _ => .ok _
  | response src pkt => simp [step, HostXBar.recvTimingResp]
  | snoopRequest snoop src pkt => simp [step, HostXBar.recvTimingSnoopReq, FinishFault]
  | snoopResponse src pkt => simp [step, HostXBar.recvTimingSnoopResp]
  | rewrite q r | arbitrate req resp snoop => exact .ok _

theorem safe_machine :
    machine.Safe (fun x e => Careful x e = true) (fun x => Inv x.toXBar) FinishFault where
  init x hx := by
    refine ⟨by rw [hx.1]; rfl, by rw [hx.1]; rfl, ?_⟩
    intro f hf line i h
    rw [SnoopFilter.find, hx.2 f hf] at h
    cases h
  step _ _ _ hi _ hc h := inv_step hi hc h
  fault _ _ e _ _ hc h := avoids_step hc e h

/-- **One request** after a careful run leaves the calls in order exactly if it is not careless. -/
theorem driven_iff_careful (hr : (machine.under fun x e => Careful x e = true).Reachable (.ok x))
    (hf : x.snoopFilter ≠ none) (h : x.recvTimingReq env src pkt = .ok (x', o)) :
    driven x'.filterCalls = true ↔ careless x pkt = false := by
  have hi := (safe safe_machine hr).1 x rfl
  obtain ⟨x1, y, v, port, hi1, hf1, hskip, hserved, haside, -⟩ := recvTimingReq_served hi h
  rw [driven_aside haside, ← hskip]
  constructor
  · exact skipsLookup_of_driven hi1 hserved (hf1 ▸ hf)
  · intro hs
    exact (hi1.served hserved (.inr hs)).driven

end Runs

/-- **Careful runs.** The calls of the filter are in order, a request that is turned
away leaves the filter's entries as they were, and no call fails on the line it
finds. -/
theorem careful_runs_driven {y : Except Fault HostXBar}
    (hr : (machine.under fun x e => Careful x e = true).Reachable y) :
    (∀ x, y = .ok x → driven x.filterCalls = true ∧
      ∀ env src pkt x' o f, Careful x (.request env src pkt) = true →
        x.recvTimingReq env src pkt = .ok (x', o) → o.success = false →
        x.snoopFilter = some f →
        ∃ f', x'.snoopFilter = some f' ∧ ∀ line, f'.find line = f.find line) ∧
    ∀ e, y = .error e → ¬ FinishFault e := by
  obtain ⟨hinv, hfault⟩ := safe safe_machine hr
  refine ⟨fun x hx => ⟨(hinv x hx).driven, ?_⟩, hfault⟩
  intro env src pkt x' o f hc h ho hf
  exact find_of_refused (hinv x hx) (by simpa [Careful] using hc) h ho hf

/-- The centre crossbar with an empty filter; the root complex is on port 0 and
memory on port 1. -/
def center : HostXBar :=
  { portMap := [(⟨0x15000000, 0x15040000⟩, 0), (⟨0xA0000000, 0x100000000⟩, 1)]
    pointOfCoherency := true, centerXbar := true
    snoopFilter := some { linesize := 64, maxEntryCount := 1024, snooping := fun _ => true } }

theorem init_center : machine.init center := by
  refine ⟨rfl, fun f hf => ?_⟩
  cases hf
  rfl

def read : Packet := { req := 1, cmd := .readSharedReq, addr := 0xA0000000 }

theorem driven_iff_careful_read :
    ∃ x' o, center.recvTimingReq { answer := some {} } 0 read = .ok (x', o) ∧
      (driven x'.filterCalls = true ↔ careless center read = false) := by
  have h : center.recvTimingReq { answer := some {} } 0 read = .ok (_, _) := rfl
  exact ⟨_, _, h, driven_iff_careful (under_init init_center) nofun h⟩

/-- The read is taken by memory. -/
theorem careful_runs_driven_read :
    ∃ x, (machine.under fun x e => Careful x e = true).Reachable (.ok x) ∧
      x.filterCalls = [.finishRequest read, .lookupRequest read] ∧
      driven x.filterCalls = true := by
  have hr := under_runs Careful
    (fun _ _ h => ⟨trivial, h⟩) [.request { answer := some {} } 0 read]
    (under_init init_center) rfl
  exact ⟨_, hr, rfl, ((careful_runs_driven hr).1 _ rfl).1⟩

/-- A request of the host that the device has answered, on its way to memory. -/
def answer (a : Nat) : Packet := { req := 2, cmd := .readExReq, addr := a }

/-- Memory takes the read, and the device answers a request of the host. -/
def beforeAnswer : List Ev :=
  [.request { answer := some {} } 0 read, .rewrite 2 { cxlPacketType := .cxlCacheH2DResp },
    .arbitrate (fun _ => {}) (fun _ => {}) (fun _ => {})]

/-- What the filter knows of the line of `read`. -/
def known (x : HostXBar) : Option SnoopItem := do (← x.snoopFilter).find 0xA0000000

/-- **The answer finishes the lookup of the read.** For another line it fails the
assertion of the filter. For the same line, refused by memory, it puts the line's
entry back to what it was before the read: the filter has forgotten a request that
is still on its way. -/
theorem answer_finishes_other_lookup :
    machine.lts.Reachable (.error (.assertion .finishFollowsLookup)) ∧
    ∃ x x', machine.lts.Reachable (.ok x) ∧ 1 ∈ x.routeTo ∧ known x = some ⟨{0}, ∅⟩ ∧
      x.recvTimingReq { answer := none } 0 (answer 0xA0000000) = .ok (x', .refused) ∧
      1 ∈ x'.routeTo ∧ known x' = none ∧ driven x'.filterCalls = false := by
  have hrun := fun ls {x} => lts_runs (y := x) (fun _ _ => true)
    (fun _ _ _ => trivial) ls (lts_init init_center)
  refine ⟨hrun (beforeAnswer ++ [.request { answer := some {} } 0 (answer 0xA0000040)]) rfl,
    _, _, hrun beforeAnswer rfl, ?_, rfl, rfl, ?_, rfl, rfl⟩
  · decide
  · decide

/-! ## A lookup and its refusal -/

/-- **A refused request leaves the table as it was**, unless the line's entry was empty before. -/
theorem refused_restores {f f' : SnoopFilter} {pkt : Packet} {r : Request} {src : PortID}
    {d : Finset PortID} (h : f.lookupRequest pkt r src = .ok (f', d))
    (hline : ∀ i, f.find (f.lineAddr pkt.addr pkt.isSecure) = some i → i.isNull = false) :
    ∃ f'', f'.finishRequest true pkt.addr pkt.isSecure = .ok f'' ∧
      (∀ line, f''.find line = f.find line) ∧ (f.Tidy → f''.Tidy) := by
  suffices hsame : ∃ f'', f'.finishRequest true pkt.addr pkt.isSecure = .ok f'' ∧
      ∀ line, f''.find line = f.find line by
    obtain ⟨f'', hfin, hfind⟩ := hsame
    exact ⟨f'', hfin, hfind, fun ht line i hi => ht line i (hfind line ▸ hi)⟩
  rcases SnoopFilter.lookupRequest_ok h with rfl | ⟨i, rfl⟩
  · exact ⟨_, rfl, fun _ => rfl⟩
  · refine ⟨_, if_pos rfl, fun line => ?_⟩
    rw [SnoopFilter.find_eraseIfNullEntry]
    simp only [SnoopFilter.find_put, SnoopFilter.find_lookedUp, if_true]
    split
    · -- the line of the request has its old entry again, or none if it had none
      rename_i hl
      subst hl
      cases hold : f.find (f.lineAddr pkt.addr pkt.isSecure) with
      | none => simp [SnoopFilter.lookedUp, hold, SnoopItem.isNull]
      | some j => simp [SnoopFilter.lookedUp, hold, hline j hold]
    · rfl

/-- A filter with one entry, for the line of `read`. -/
def holding (i : SnoopItem) : SnoopFilter :=
  { linesize := 64, maxEntryCount := 1024, snooping := fun _ => true
    cachedLocations := AList.insert 0xA0000000 i ∅ }

/-- A second cache reads a line, and the read is refused. -/
theorem refused_restores_shared :
    ∃ f' d f'', (holding ⟨∅, {1}⟩).lookupRequest read {} 0 = .ok (f', d) ∧
      f'.find 0xA0000000 = some ⟨{0}, {1}⟩ ∧
      f'.finishRequest true read.addr read.isSecure = .ok f'' ∧
        f''.find 0xA0000000 = some ⟨∅, {1}⟩ := by
  obtain ⟨f', d, h, hf'⟩ : ∃ f' d, (holding ⟨∅, {1}⟩).lookupRequest read {} 0 = .ok (f', d) ∧
      f'.find 0xA0000000 = some ⟨{0}, {1}⟩ := ⟨_, _, rfl, by decide⟩
  obtain ⟨f'', hfin, hfind, -⟩ := refused_restores h (by decide)
  exact ⟨f', d, f'', h, hf', hfin, hfind 0xA0000000⟩

/-- **An empty entry goes.** A refused read erases it. -/
theorem refused_erases_empty :
    ∃ f' d f'', (holding {}).lookupRequest read {} 0 = .ok (f', d) ∧
      f'.finishRequest true read.addr read.isSecure = .ok f'' ∧ f''.find 0xA0000000 = none ∧
      (holding {}).find 0xA0000000 = some {} := ⟨_, _, _, rfl, rfl, by decide, by decide⟩

end Gem5Cxl.L3.FilterCalls
