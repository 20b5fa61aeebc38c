import Gem5Cxl.L2Machine.HostXBar

/-!
# Does `fake_snoop_filter` include what the device holds?

The host's centre crossbar sends a host request straight to memory if its
address is not in `fake_snoop_filter`. For a `ReadExReq` that is only right if
the device has no copy of the line and none on its way: the host is about to
write the line.

The system is the crossbar with device reads of host memory, host requests and
responses in any order. The device gains a copy of a line when the response to
its read passes the crossbar, and loses it when a `ReadExReq` is sent to the
root complex.

* `Inv`: the set includes the lines the device holds. It is kept by every step
  that meets `Careful`.
* `unsnooped_readEx_clear`: in a run of careful steps, a `ReadExReq` sent to
  memory while no read of the line is on its way finds no copy of it either.
* `inclusion_lost`: the runs in which it goes wrong. The set is written when the
  response passes, so a `ReadExReq` can fall between a device read and its
  response; it holds addresses, so a read of another address of the line does
  not help; and it is not written when a host cache answers the device.

`Careful` leaves out these, and the ways to lose an entry without a snoop: a
`ReadExReq` that was retagged by an earlier refusal, that is refused, or that a
cache above answers.
-/
namespace Gem5Cxl.L3.FilterInclusion

open Core L1 L2 Function HostXBar List Machine

def lineOf (a : Nat) : Nat := a / 64

/-- `held`: the lines the device has a copy of. `reading`: the device reads that
have passed down and whose response has not passed up. -/
structure Sys where
  xbar : HostXBar
  held : Nat → Bool := fun _ => false
  reading : List Packet := []

inductive Ev
  | device (env : Env) (src : PortID) (pkt : Packet)
  | host (env : Env) (src : PortID) (pkt : Packet)
  | response (src : PortID) (pkt : Packet)
  | snoopResponse (src : PortID) (pkt : Packet)
  | rewrite (q : ReqId) (r : Request)
  | arbitrate (req : PortID → Layer PortID) (resp : PortID → Layer RespSource)

namespace Sys

def isReading (s : Sys) (q : ReqId) : Bool := s.reading.any fun p => p.req = q

/-- A read of the line of `pkt` is on its way. -/
def lineInFlight (s : Sys) (pkt : Packet) : Prop := ∃ p ∈ s.reading, lineOf p.addr = lineOf pkt.addr

/-- The crossbar has passed a response on: if it answers a device read, the device
now has the line. -/
def answered (s : Sys) (x : HostXBar) (pkt : Packet) : Sys :=
  if s.isReading pkt.req then
    { xbar := x
      held := Function.update s.held (lineOf pkt.addr) true
      reading := s.reading.filter fun p => p.req ≠ pkt.req }
  else { s with xbar := x }

/-- A host request with outcome `o` has invalidated the device's copy. -/
def invalidates (s : Sys) (pkt : Packet) (o : Outcome) : Bool :=
  s.xbar.mustSnoop pkt && pkt.cmd = .readExReq && o matches .sent _

end Sys

def step (s : Sys) : Ev → Except Fault Sys
  | .device env src pkt => do
    let (x, o) ← s.xbar.recvTimingReq env src pkt
    .ok { s with xbar := x, reading := if o.success then pkt :: s.reading else s.reading }
  | .host env src pkt => do
    let (x, o) ← s.xbar.recvTimingReq env src pkt
    .ok { s with xbar := x
                 held := if s.invalidates pkt o then Function.update s.held (lineOf pkt.addr) false
                   else s.held }
  | .response src pkt => do
    let (x, taken) ← s.xbar.recvTimingResp src pkt
    .ok (if taken then s.answered x pkt else { s with xbar := x })
  | .snoopResponse src pkt => do
    let (x, taken) ← s.xbar.recvTimingSnoopResp src pkt
    .ok (if taken then s.answered x pkt else { s with xbar := x })
  | .rewrite q r => .ok { s with xbar := { s.xbar with req := Function.update s.xbar.req q r } }
  | .arbitrate req resp => .ok { s with xbar := { s.xbar with reqLayers := req, respLayers := resp } }

/-- What the neighbours may do. A device read is a new request of type
`CXLcachePacket`, which memory does not change. A request belongs to the host or
to the device. A response has the address of its request. Requests that are not
the device's may be changed at any time. Layers are freed, and taken by packets
that are not modelled, at any time. -/
def enabled (s : Sys) : Ev → Bool
  | .device env _ pkt =>
    inHostMem pkt.addr && pkt.cmd.isRead && pkt.needsResponse && !s.isReading pkt.req &&
      (s.xbar.req pkt.req).cxlPacketType = .cxlCachePacket &&
      env.answer.all fun r => r.cxlPacketType = .cxlCachePacket
  | .host _ _ pkt =>
    inHostMem pkt.addr && (pkt.cmd = .readSharedReq || pkt.cmd = .readExReq) &&
      !s.isReading pkt.req
  | .response _ pkt | .snoopResponse _ pkt =>
    s.reading.all fun p => p.req ≠ pkt.req || p.addr = pkt.addr
  | .rewrite q _ => !s.isReading q
  | .arbitrate _ _ => true

/-- The port of `pkt` has a free layer, its peer takes the packet, and no cache
above responds. -/
def unhindered (x : HostXBar) (env : Env) (pkt : Packet) : Bool :=
  (match x.target pkt with
    | .ok port => !(x.reqLayers port).taken
    | .error _ => false) &&
  env.answer.isSome && !pkt.cacheResponding && !env.snoop.cacheResponding

/-- The runs in which the set does its work. Device reads and `ReadExReq`s are
for whole lines; a `ReadExReq` has not been retagged, and if it must snoop the
device, it does so at once; no host cache answers the device. -/
def Careful (s : Sys) : Ev → Bool
  | .device _ _ pkt => pkt.addr % 64 = 0
  | .host env _ pkt =>
    pkt.cmd ≠ .readExReq ||
      (pkt.addr % 64 = 0 && (s.xbar.req pkt.req).cxlPacketType = .defaultPacket &&
        (!s.xbar.mustSnoop pkt || unhindered s.xbar env pkt))
  | .response _ _ => true
  | .snoopResponse _ pkt => !s.isReading pkt.req
  | .rewrite _ _ => true
  | .arbitrate _ _ => true

def machine : Machine Sys Ev Fault where
  init s := ∃ x : HostXBar, x.centerXbar = true ∧ (∀ a, x.fakeSnoopFilter a = false) ∧
    s = { xbar := x }
  enabled s e := enabled s e = true
  step := step

/-! ## The invariant -/

structure Inv (s : Sys) : Prop where
  center : s.xbar.centerXbar = true
  included : ∀ l, s.held l = true → s.xbar.fakeSnoopFilter (l * 64) = true
  reads : ∀ p ∈ s.reading, p.addr % 64 = 0 ∧ inHostMem p.addr = true ∧
    (s.xbar.req p.req).cxlPacketType = .cxlCachePacket

theorem lineOf_mul {a : Nat} (h : a % 64 = 0) : lineOf a * 64 = a := by
  unfold lineOf
  omega

theorem mul_eq_iff {a l : Nat} (h : a % 64 = 0) : l * 64 = a ↔ l = lineOf a := by
  unfold lineOf
  omega

section Steps

variable {s s' : Sys} {env : Env} {src : PortID} {pkt : Packet} {x : HostXBar} {q : ReqId}

theorem ne_of_not_reading (h : s.isReading q = false) : ∀ p ∈ s.reading, p.req ≠ q := by
  simpa [Sys.isReading] using h

theorem filterAfter_of_not_mustSnoop (h : x.mustSnoop pkt = false) :
    x.filterAfter pkt = x.fakeSnoopFilter ∧ x.reqAfter pkt = x.req := by
  simp [filterAfter, reqAfter, h]

/-- The crossbar has taken nothing out of the set and rewritten no request of a pending read. -/
theorem Inv.kept (hi : Inv s) (hc : x.centerXbar = s.xbar.centerXbar)
    (hset : ∀ a, s.xbar.fakeSnoopFilter a = true → x.fakeSnoopFilter a = true)
    (hreq : ∀ p ∈ s.reading, x.req p.req = s.xbar.req p.req) : Inv { s with xbar := x } := by
  refine ⟨hc.trans hi.center, fun l hl => hset _ (hi.included l hl), fun p hp => ?_⟩
  rw [hreq p hp]
  exact hi.reads p hp

theorem inv_device (hi : Inv s) (he : enabled s (.device env src pkt) = true)
    (hg : Careful s (.device env src pkt) = true) (h : step s (.device env src pkt) = .ok s') :
    Inv s' := by
  simp only [enabled, Bool.and_eq_true, decide_eq_true_eq, Bool.not_eq_true'] at he
  obtain ⟨⟨⟨⟨⟨hmem, -⟩, -⟩, hnew⟩, htype⟩, hanswer⟩ := he
  have hal : pkt.addr % 64 = 0 := by simpa [Careful] using hg
  obtain ⟨⟨x, o⟩, hx, h⟩ := bind_eq_ok.mp h
  cases h
  -- a device request is not the kind that looks at the set
  have hs : s.xbar.mustSnoop pkt = false := by
    unfold mustSnoop
    rw [htype]
    simp
  obtain ⟨hf, hr⟩ := filterAfter_of_not_mustSnoop hs
  obtain ⟨hc, hset, -, hreq⟩ := recvTimingReq_frame hx
  rw [hf] at hset
  rw [hr] at hreq
  have hown : (x.req pkt.req).cxlPacketType = .cxlCachePacket := by
    rcases hreq with ⟨hreq, -⟩ | ⟨m, r, -, -, ha, hreq⟩
    · rw [hreq, htype]
    · rw [hreq]
      simpa [ha] using hanswer
  have hkept : Inv { s with xbar := x } := by
    refine hi.kept hc (hset ▸ fun _ => id) fun p hp => ?_
    rcases hreq with ⟨hreq, -⟩ | ⟨m, r, -, -, -, hreq⟩
    · rw [hreq]
    · rw [hreq, update_of_ne (ne_of_not_reading hnew p hp)]
  refine ⟨hkept.center, hkept.included, fun p hp => ?_⟩
  split at hp
  · rcases mem_cons.mp hp with rfl | hp
    · exact ⟨hal, hmem, hown⟩
    · exact hkept.reads p hp
  · exact hkept.reads p hp

theorem sent_of_careful {o : Outcome} (hg : Careful s (.host env src pkt) = true)
    (hs : s.xbar.mustSnoop pkt = true)
    (hc : pkt.cmd = .readExReq) (hx : s.xbar.recvTimingReq env src pkt = .ok (x, o)) :
    pkt.addr % 64 = 0 ∧ s.invalidates pkt o = true := by
  simp only [Careful, hc, hs, ne_eq, not_true_eq_false, decide_false, Bool.false_or, Bool.not_true,
    Bool.and_eq_true, decide_eq_true_eq] at hg
  obtain ⟨⟨hal, -⟩, hun⟩ := hg
  simp only [unhindered, Bool.and_eq_true, Bool.not_eq_true'] at hun
  obtain ⟨⟨⟨hport, hans⟩, hp⟩, hsnoop⟩ := hun
  split at hport
  · rename_i port ht
    obtain ⟨r, hr⟩ := Option.isSome_iff_exists.mp hans
    obtain rfl := recvTimingReq_sent hx hc ht (by simpa using hport) hp hsnoop hr
    exact ⟨hal, by simp [Sys.invalidates, hs, hc]⟩
  · cases hport

theorem inv_host (hi : Inv s) (he : enabled s (.host env src pkt) = true)
    (hg : Careful s (.host env src pkt) = true) (h : step s (.host env src pkt) = .ok s') :
    Inv s' := by
  simp only [enabled, Bool.and_eq_true, Bool.not_eq_true'] at he
  obtain ⟨-, hnew⟩ := he
  obtain ⟨⟨x, o⟩, hx, h⟩ := bind_eq_ok.mp h
  cases h
  obtain ⟨hc, hset, -, hreq⟩ := recvTimingReq_frame hx
  have hothers : ∀ p ∈ s.reading, x.req p.req = s.xbar.req p.req := by
    intro p hp
    have hne := ne_of_not_reading hnew p hp
    have hafter : s.xbar.reqAfter pkt p.req = s.xbar.req p.req := by
      unfold reqAfter
      split
      · exact update_of_ne hne _ _
      · rfl
    rcases hreq with ⟨hreq, -⟩ | ⟨m, r, -, -, -, hreq⟩
    · rw [hreq, hafter]
    · rw [hreq, update_of_ne hne, hafter]
  refine ⟨hc.trans hi.center, ?_, ?_⟩
  · intro l hl
    simp only [hset]
    by_cases hex : s.xbar.mustSnoop pkt = true ∧ pkt.cmd = .readExReq
    · -- the entry goes, and with it the device's copy
      obtain ⟨hal, hinv⟩ := sent_of_careful hg hex.1 hex.2 hx
      simp only [hinv, if_true] at hl
      rw [filterAfter, if_pos hex]
      by_cases hline : l = lineOf pkt.addr
      · rw [hline, update_self] at hl
        cases hl
      · rw [update_of_ne hline] at hl
        rw [update_of_ne (fun h => hline ((mul_eq_iff hal).mp h))]
        exact hi.included l hl
    · have hinv : s.invalidates pkt o = false := by
        by_contra hinv
        simp only [Sys.invalidates, Bool.not_eq_false, Bool.and_eq_true, decide_eq_true_eq] at hinv
        exact hex hinv.1
      rw [filterAfter, if_neg hex]
      rw [hinv] at hl
      exact hi.included l hl
  · intro p hp
    rw [hothers p hp]
    exact hi.reads p hp

theorem inv_response (hi : Inv s) (he : enabled s (.response src pkt) = true)
    (h : step s (.response src pkt) = .ok s') : Inv s' := by
  obtain ⟨⟨x, taken⟩, hx, h⟩ := bind_eq_ok.mp h
  cases h
  obtain ⟨hc, ha, hset⟩ := recvTimingResp_frame hx
  have hpassed : Inv { s with xbar := x } := by
    refine hi.kept hc (fun a hfa => ?_) fun _ _ => congrFun ha.req _
    rw [hset]
    split
    · simp [update_apply, hfa]
    · exact hfa
  split
  swap
  · exact hpassed
  unfold Sys.answered
  split
  swap
  · exact hpassed
  rename_i ht hr
  -- the read that it answers was for a whole line of host memory
  obtain ⟨p, hp, hpq⟩ : ∃ p ∈ s.reading, p.req = pkt.req := by simpa [Sys.isReading] using hr
  have haddr : p.addr = pkt.addr := by
    have hall := all_eq_true.mp he p hp
    simpa [hpq] using hall
  obtain ⟨hal, hmem, htype⟩ := hi.reads p hp
  rw [haddr] at hal hmem
  rw [hpq] at htype
  have henters : s.xbar.entersFakeSF pkt = true := by
    simp [entersFakeSF, hi.center, htype, hmem]
  refine ⟨hpassed.center, ?_, fun p hp => hpassed.reads p (mem_of_mem_filter hp)⟩
  intro l hl
  simp only at hl
  by_cases hline : l = lineOf pkt.addr
  · simp only [hset, ht, henters, Bool.and_self, if_true]
    rw [(mul_eq_iff hal).mpr hline, update_self]
  · rw [update_of_ne hline] at hl
    exact hpassed.included l hl

theorem inv_snoopResponse (hi : Inv s) (hg : Careful s (.snoopResponse src pkt) = true)
    (h : step s (.snoopResponse src pkt) = .ok s') : Inv s' := by
  have hr : s.isReading pkt.req = false := by simpa [Careful] using hg
  obtain ⟨⟨x, taken⟩, hx, h⟩ := bind_eq_ok.mp h
  cases h
  obtain ⟨hc, ha, hset⟩ := recvTimingSnoopResp_frame hx
  have hpassed := hi.kept hc (hset ▸ fun _ => id) fun _ _ => congrFun ha.req _
  split
  · rw [Sys.answered, hr]
    exact hpassed
  · exact hpassed

theorem inv_rewrite {r : Request} (hi : Inv s) (he : enabled s (.rewrite q r) = true) :
    Inv { s with xbar.req := update s.xbar.req q r } := by
  have hnew : s.isReading q = false := by simpa [enabled] using he
  exact hi.kept rfl (fun _ => id) fun p hp => update_of_ne (ne_of_not_reading hnew p hp) ..

end Steps

theorem safe : machine.Safe (fun s e => Careful s e = true) Inv (fun _ => False) where
  init := by
    rintro s ⟨x, hc, -, rfl⟩
    exact ⟨hc, by simp, by simp⟩
  step := by
    intro s e s' hi he hg h
    cases e with
    | device env src pkt => exact inv_device hi he hg h
    | host env src pkt => exact inv_host hi he hg h
    | response src pkt => exact inv_response hi he h
    | snoopResponse src pkt => exact inv_snoopResponse hi hg h
    | rewrite q r =>
      cases h
      exact inv_rewrite hi he
    | arbitrate req resp =>
      cases h
      exact { hi with }
  fault := fun _ _ _ _ _ _ _ => id

/-! ## Requests that do not snoop the device -/

/-- The device has no copy of the line, and none on its way. -/
def Clear (s : Sys) (pkt : Packet) : Prop :=
  s.held (lineOf pkt.addr) = false ∧ ¬ s.lineInFlight pkt

/-- **Inclusion.** In every run of careful steps, a `ReadExReq` that does not snoop
the device finds it clear of the line, unless a read of the line is on its way. -/
theorem unsnooped_readEx_clear {s : Sys} (env : Env) (src : PortID) {pkt : Packet}
    (hr : (machine.under fun s e => Careful s e = true).Reachable (.ok s))
    (he : enabled s (.host env src pkt) = true) (hg : Careful s (.host env src pkt) = true)
    (hc : pkt.cmd = .readExReq) (hs : s.xbar.mustSnoop pkt = false)
    (hf : ¬ s.lineInFlight pkt) : Clear s pkt := by
  refine ⟨?_, hf⟩
  have hi : Inv s := (Machine.safe safe hr).1 s rfl
  simp only [Careful, hc, hs, ne_eq, not_true_eq_false, decide_false, Bool.false_or, Bool.not_false,
    Bool.true_or, and_true, Bool.and_eq_true, decide_eq_true_eq] at hg
  obtain ⟨hal, htype⟩ := hg
  simp only [enabled, Bool.and_eq_true] at he
  obtain ⟨⟨hmem, -⟩, -⟩ := he
  -- a held line would be in the set, and the request would have to snoop
  by_contra hheld
  have hin := hi.included _ (by simpa using hheld)
  rw [lineOf_mul hal] at hin
  simp [mustSnoop, hi.center, hmem, htype, hin] at hs

/-- The centre crossbar: the root complex is on port 0, memory on port 1. Request 1
is the host's, the others are the device's. -/
def start : Sys :=
  { xbar :=
      { portMap := [(⟨0x15000000, 0x15040000⟩, 0), (⟨0xA0000000, 0x100000000⟩, 1)]
        pointOfCoherency := true, centerXbar := true
        req := fun q => if q = 1 then {} else { cxlPacketType := .cxlCachePacket } } }

def toMemory : Env := { answer := some { cxlPacketType := .cxlCachePacket } }

def deviceRead (a : Nat) : Packet := { req := 2, cmd := .readSharedReq, addr := a }

def deviceResp (a : Nat) : Packet := { req := 2, cmd := .readResp, addr := a }

def free : Ev := .arbitrate (fun _ => {}) (fun _ => {})

def toCache : Env := { answer := none, snoop := { cacheResponding := true } }

def cacheResp (a : Nat) : Packet :=
  { req := 2, cmd := .readResp, addr := a, cacheResponding := true, hasSharers := true }

/-- The host reads the first line of host memory for writing. -/
def hostReadEx : Packet := { req := 1, cmd := .readExReq, addr := 0xA0000000 }

/-- The device reads another line, and the host's read does not snoop it. -/
theorem unsnooped_readEx_clear_other_line :
    ∃ s, (machine.under fun s e => Careful s e = true).Reachable (.ok s) ∧
      s.held (lineOf 0xA0000040) = true ∧ Clear s hostReadEx := by
  have h0 : machine.init start := ⟨start.xbar, rfl, fun _ => rfl, rfl⟩
  have hrun := fun {x} => under_runs
    (y := x) (fun s e => enabled s e && Careful s e) (fun s e h => Bool.and_eq_true_iff.mp h)
    [.device toMemory 1 (deviceRead 0xA0000040), .response 1 (deviceResp 0xA0000040), free]
    (under_init h0)
  refine ⟨_, hrun rfl, rfl,
    unsnooped_readEx_clear { answer := some {} } 0 (hrun rfl) rfl rfl rfl rfl ?_⟩
  rintro ⟨p, hp, -⟩
  cases hp

/-- The host's read goes to memory although the device is not clear of the line. -/
def Missed (s : Sys) : Prop :=
  enabled s (.host { answer := some {} } 0 hostReadEx) = true ∧ s.xbar.mustSnoop hostReadEx = false ∧
    (∃ x, s.xbar.recvTimingReq { answer := some {} } 0 hostReadEx = .ok (x, .sent 1)) ∧
    ¬ Clear s hostReadEx

def otherAddress : List Ev :=
  [.device toMemory 1 (deviceRead 0xA0000020), .response 1 (deviceResp 0xA0000020), free]

/-- The device's read is answered by a host cache. -/
def cacheAnswers : List Ev :=
  [.device toCache 1 (deviceRead 0xA0000000), .snoopResponse 0 (cacheResp 0xA0000000), free]

/-- **Inclusion is lost.** While the device's read is on its way; after it has read
another address of the line; after a host cache has answered it. -/
theorem inclusion_lost :
    (∃ s, machine.lts.Reachable (.ok s) ∧ s.lineInFlight hostReadEx ∧ Missed s) ∧
    ∀ ls ∈ [otherAddress, cacheAnswers],
      ∃ s, machine.runs enabled (.ok start) ls = some (.ok s) ∧ machine.lts.Reachable (.ok s) ∧
        s.held (lineOf 0xA0000000) = true ∧ Missed s := by
  have h0 : machine.init start := ⟨start.xbar, rfl, fun _ => rfl, rfl⟩
  have hrun := fun ls {x} => lts_runs (y := x) enabled
    (fun _ _ h => h) ls (lts_init h0)
  have hheld : ∀ s : Sys, s.held (lineOf 0xA0000000) = true → ¬ Clear s hostReadEx := by
    intro s h hc
    rw [show s.held (lineOf 0xA0000000) = false from hc.1] at h
    cases h
  refine ⟨⟨_, hrun [.device toMemory 1 (deviceRead 0xA0000000), free] rfl,
    ⟨_, mem_singleton.mpr rfl, rfl⟩, rfl, rfl, ⟨_, rfl⟩, ?_⟩, ?_⟩
  · intro hc
    exact hc.2 ⟨_, mem_singleton.mpr rfl, rfl⟩
  · intro ls hls
    rcases mem_pair.mp hls with rfl | rfl
    · exact ⟨_, rfl, hrun otherAddress rfl, rfl, rfl, rfl, ⟨_, rfl⟩, hheld _ rfl⟩
    · exact ⟨_, rfl, hrun cacheAnswers rfl, rfl, rfl, rfl, ⟨_, rfl⟩, hheld _ rfl⟩

end Gem5Cxl.L3.FilterInclusion
