import Gem5Cxl.L2Machine.AddrMapper

/-!
# Refused packets pass an address mapper unchanged

* `refused_loses_state`: a sender state is pushed for a request that needs a response no
  cache has promised, but popped after a refusal if the request needs a response at all.
  If a cache has promised it, what is popped is a state of the sender.
* `refused_unchanged`: for all other requests, and for no such one, whatever the peers do,
  a refusal changes nothing and a response is delivered with the address and the sender
  states of its request. A refused response is unchanged in any case.
-/
namespace Gem5Cxl.L3.MapperRefusal

open L1 L2.AddrMapper

/-- **A state is lost.** A cache has promised the response to a read that is refused: a sender
state of another component is gone, and if there is none the simulation stops. -/
theorem refused_loses_state :
    let p : Packet := { req := 0, cmd := .readReq, addr := 4, cacheResponding := true }
    recvTimingReq id (fun _ => false) ⟨p, [.other 1]⟩ = .ok (false, ⟨p, []⟩) ∧
      recvTimingReq id (fun _ => false) ⟨p, []⟩ = .error (.assertion .senderStateNonNull) :=
  ⟨rfl, rfl⟩

variable {p q : Tagged}

theorem recvTimingReq_spec (remapAddr : Nat → Nat) (down : Tagged → Bool)
    (hp : (p.pkt.needsResponse && p.pkt.cacheResponding) = false) :
    ∃ sent, recvTimingReq remapAddr down p = .ok (if down sent then (true, sent) else (false, p)) ∧
      (p.pkt.needsResponse = true → sent.senderState = .mapper p.pkt.addr :: p.senderState) := by
  unfold recvTimingReq
  cases hneeds : p.pkt.needsResponse with
  | false =>
    refine ⟨p.setAddr (remapAddr p.pkt.addr), ?_, nofun⟩
    simp only [Bool.false_and, Bool.false_eq_true, if_false]
    split <;> rfl
  | true =>
    rw [hneeds, Bool.true_and] at hp
    refine ⟨(p.pushSenderState (.mapper p.pkt.addr)).setAddr (remapAddr p.pkt.addr), ?_,
      fun _ => rfl⟩
    simp only [hp, Bool.not_false, Bool.and_self, if_true]
    split <;> rfl

/-- Nothing was pushed, and a state is popped. -/
theorem recvTimingReq_promised (remapAddr : Nat → Nat)
    (hp : (p.pkt.needsResponse && p.pkt.cacheResponding) = true) :
    recvTimingReq remapAddr (fun _ => false) p = (false, ·) <$> p.popSenderState := by
  obtain ⟨hneeds, hpromised⟩ := Bool.and_eq_true_iff.1 hp
  simp only [recvTimingReq, hneeds, hpromised]
  rfl

theorem popSenderState_ne : p.popSenderState ≠ .ok p := by
  intro h
  unfold Tagged.popSenderState at h
  split at h
  · cases h
  · rename_i hs
    have hlen := congrArg (·.senderState.length) (Except.ok.inj h)
    simp [hs] at hlen

theorem recvTimingResp_refused {up : Tagged → Bool} {resp : Tagged}
    (h : recvTimingResp up resp = .ok (false, q)) : q = resp := by
  unfold recvTimingResp at h
  split at h
  · dsimp only at h
    split at h <;> cases h
    rfl
  · cases h

/-- **Refusals leave no trace** of a request, whatever the peers do, exactly if it needs no response
or no cache has promised one: the request is unchanged if it is refused, and so is a response, and
the response to a request that was taken is delivered with the address and the sender states of
the request. -/
theorem refused_unchanged (remapAddr : Nat → Nat) (p : Tagged) :
    (∀ down up, ∃ taken sent, recvTimingReq remapAddr down p = .ok (taken, sent) ∧
      (taken = false → sent = p) ∧
      ∀ resp, (∀ q, recvTimingResp up resp = .ok (false, q) → q = resp) ∧
        (taken = true → p.pkt.needsResponse = true → resp.senderState = sent.senderState →
          ∃ r, r.pkt.addr = p.pkt.addr ∧ r.senderState = p.senderState ∧
            recvTimingResp up resp = .ok (if up r then (true, r) else (false, resp)))) ↔
      (p.pkt.needsResponse && p.pkt.cacheResponding) = false := by
  refine ⟨fun h => ?_, fun hp down up => ?_⟩
  · -- a peer that refuses
    by_contra hp
    obtain ⟨taken, sent, hreq, hsame, -⟩ := h (fun _ => false) fun _ => false
    rw [recvTimingReq_promised remapAddr (Bool.not_eq_false _ ▸ hp)] at hreq
    cases hpop : p.popSenderState with
    | error e =>
      rw [hpop] at hreq
      cases hreq
    | ok popped =>
      rw [hpop] at hreq
      cases hreq
      exact popSenderState_ne (hpop.trans (congrArg _ (hsame rfl)))
  · obtain ⟨sent, hreq, hstate⟩ := recvTimingReq_spec remapAddr down hp
    rw [hreq]
    cases down sent with
    | false =>
      exact ⟨false, p, rfl, fun _ => rfl, fun _ => ⟨fun _ => recvTimingResp_refused, nofun⟩⟩
    | true =>
      refine ⟨true, sent, rfl, nofun, fun resp => ⟨fun _ => recvTimingResp_refused,
        fun _ hneeds hresp => ?_⟩⟩
      refine ⟨{ resp with senderState := p.senderState }.setAddr p.pkt.addr, rfl, rfl, ?_⟩
      rw [recvTimingResp, hresp, hstate hneeds]

end Gem5Cxl.L3.MapperRefusal
