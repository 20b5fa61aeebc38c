import Gem5Cxl.L2Machine.Dcoh
import Gem5Cxl.L2Machine.HomeAgent
import Mathlib.Algebra.Ring.Nat

/-!
# Device-bias safety

While a page of CXL memory is in device bias, the device accesses it without
asking the host. That is safe only if the host has no cached copy of any line
of the page.

The system is the set of CXL-memory lines the host caches together with DCOH's
bias table. Its steps are

* `host cmd a`: a host request, turned into a CXL.mem message by
  `HomeAgent::makeCXLPacket` and answered by `DCOH::makeCXLresponse`; a
  `ReadSharedReq` or `ReadExReq` leaves the host with a copy of the line;
* `evict a`: the host evicts or invalidates its copy of the line of `a`;
* `device cmd a hasSharers`: the device's processor accesses `a`. On a
  host-biased page the host is snooped for that one line; the home agent
  answers from the snoop result and the bias is set from the answer. A snoop
  that leaves no sharer has invalidated the host's copy of the line.

The bias is kept per page but the snoop is per line: a check of one line moves
the whole page to device bias. `shared_page_unsafe` is the shortest run
that goes wrong. `device_bias_safe` is what the code does guarantee: the
invariant holds along every run in which a check that ends without sharers
is made only while the host caches no *other* line of the page
(`AloneOnPage`).
-/
namespace Gem5Cxl.L3.BiasSafety

open Core L1 L2 L2.Dcoh Function Machine

/-- The host's cache line size, a power of two of at most a page. -/
structure Geometry where
  lineBits : Nat
  le_page : lineBits ≤ 12

/-- The number of the line that holds `a`. -/
def Geometry.line (g : Geometry) (a : Nat) : Nat := a / 2 ^ g.lineBits

def line64 : Geometry := ⟨6, by decide⟩

structure St where
  held : Nat → Bool
  bias : BiasTable

def St.init : St := { held := fun _ => false, bias := fun _ => none }

inductive Ev
  | host (cmd : MemCmd) (a : Nat)
  | evict (a : Nat)
  | device (cmd : MemCmd) (a : Nat) (hasSharers : Bool)
deriving DecidableEq, Repr

/-- The commands after which the host caches the line. -/
def caches (cmd : MemCmd) : Bool := cmd = .readSharedReq || cmd = .readExReq

def hostStep (g : Geometry) (s : St) (cmd : MemCmd) (a : Nat) : Except Fault St :=
  let pkt : Packet := { req := 0, cmd := cmd, addr := a }
  match HomeAgent.makeCXLPacket pkt {} with
  | none => .error (.panic "failed make CXL Packet\n")
  | some r => do
    let (_, bias) ← makeCXLresponse pkt r s.bias
    .ok { held := if caches cmd then Function.update s.held (g.line a) true else s.held, bias }

/-- A device access: the bias check of the crossbar, then, in host bias, the
device's request, the home agent's answer and the update of the table. -/
def deviceStep (g : Geometry) (s : St) (cmd : MemCmd) (a : Nat) (hasSharers : Bool) :
    Except Fault St := do
  let (inHostBias, bias) ← isHostBiasMode s.bias a
  if inHostBias then
    let pkt : Packet := { req := 0, cmd := cmd, addr := a, hasSharers := hasSharers }
    let asked := makeCXLrequest pkt { cxlPacketType := .hostBiasCheck }
    let answered ← HomeAgent.checkCoherenceTiming pkt asked
    let bias ← applyMemFwd pkt answered bias
    .ok { held := if hasSharers then s.held else Function.update s.held (g.line a) false, bias }
  else .ok { s with bias }

def step (g : Geometry) (s : St) : Ev → Except Fault St
  | .host cmd a => hostStep g s cmd a
  | .evict a => .ok { s with held := Function.update s.held (g.line a) false }
  | .device cmd a hasSharers => deviceStep g s cmd a hasSharers

def machine (g : Geometry) : Machine St Ev Fault where
  init s := s = St.init
  enabled _ _ := True
  step := step g

/-- Whenever `is_host_bias_mode(a)` answers false, the host holds no copy of
the line of `a`. -/
def DeviceBiasSafe (g : Geometry) (s : St) : Prop :=
  ∀ a, inCxlMem a = true → (isHostBiasMode s.bias a).map Prod.fst = .ok false →
    s.held (g.line a) = false

/-- The check of `a` on a host-biased page may end without sharers only while
the host holds no other line of that page. -/
def AloneOnPage (g : Geometry) (s : St) : Ev → Prop
  | .device _ a false => hostBias s.bias (pageNum a) = true →
      ∀ b, inCxlMem b = true → pageNum b = pageNum a → s.held (g.line b) = true →
        g.line b = g.line a
  | _ => True

/-! ## What each step does to the table -/

variable {a : Nat} {g : Geometry} {s : St} {cmd : MemCmd} {hasSharers : Bool} {pkt : Packet}
  {r : Request} {s' : St}

theorem line_page (g : Geometry) {b : Nat} (h : g.line a = g.line b) : pageNum a = pageNum b := by
  rw [pageNum_eq, pageNum_eq]
  have hp : 4096 = 2 ^ g.lineBits * 2 ^ (12 - g.lineBits) := by
    rw [← Nat.pow_add, Nat.add_sub_cancel' g.le_page]
  rw [hp, ← Nat.div_div_eq_div_mul, ← Nat.div_div_eq_div_mul]
  unfold Geometry.line at h
  rw [h]

theorem safe_iff (g : Geometry) (s : St) : DeviceBiasSafe g s ↔
    ∀ a, inCxlMem a = true → hostBias s.bias (pageNum a) = false → s.held (g.line a) = false := by
  refine forall_congr' fun a => forall_congr' fun ha => ?_
  rw [isHostBiasMode_ok s.bias ha]
  simp [Except.map]

/-- Of the four host commands that become CXL.mem messages, the two caching
reads and the write ask DCOH for host bias; the uncached read does not. -/
theorem makeCXLresponse_hostMessage {r' r'' : Request} {t t' : BiasTable}
    (hm : HomeAgent.makeCXLPacket pkt r = some r') (h : makeCXLresponse pkt r' t = .ok (r'', t')) :
    if pkt.cmd = .readReq then t' = t
    else inCxlMem pkt.addr = true ∧ t' = update t (pageNum pkt.addr) (some true) := by
  unfold HomeAgent.makeCXLPacket at hm
  split at hm
  case h_3 hc =>
    cases hm
    rw [if_pos hc]
    exact Answer.send_ok (w := { ndr := ⟨.cmp, .noOp, .any⟩ }) (a := pkt.addr) h
  case h_5 => cases hm
  all_goals
    rename_i hc
    cases hm
    rw [if_neg (by rw [hc]; decide)]
    exact Answer.send_ok h

/-- A host request leaves the table as it was, or moves the page of the
request to host bias; the requests that cache do the latter. -/
theorem hostStep_ok (h : hostStep g s cmd a = .ok s') :
    (s'.held = update s.held (g.line a) true ∧
      s'.bias = update s.bias (pageNum a) (some true)) ∨
    (s'.held = s.held ∧
      (s'.bias = s.bias ∨ s'.bias = update s.bias (pageNum a) (some true))) := by
  unfold hostStep at h
  simp only at h
  split at h
  · cases h
  · rename_i r hm
    obtain ⟨⟨r', t⟩, hr, h⟩ := bind_eq_ok.mp h
    cases h
    have ht := makeCXLresponse_hostMessage hm hr
    by_cases hc : caches cmd = true
    · have hne : cmd ≠ .readReq := by
        rintro rfl
        cases hc
      rw [if_neg hne] at ht
      exact .inl ⟨by rw [if_pos hc], ht.2⟩
    · refine .inr ⟨by rw [if_neg hc], ?_⟩
      split at ht
      · exact .inl ht
      · exact .inr ht.2

theorem applyMemFwd_forwarded {t t' : BiasTable}
    {opcode : M2SReqOpCode} (ho : opcode = .memRdFwd ∨ opcode = .memWrFwd)
    (h : applyMemFwd pkt (HomeAgent.forwarded opcode pkt r) t = .ok t') :
    t' = update t (pageNum pkt.addr) (some pkt.hasSharers) := by
  rw [applyMemFwd_fwd ho rfl] at h
  obtain ⟨-, rfl⟩ := setBiasMode_eq_ok h
  cases pkt.hasSharers <;> rfl

/-- A device access enters the page's bias in the table; in host bias it sets
the page's bias to the snoop result and drops the line if nobody shares it. -/
theorem deviceStep_ok (h : deviceStep g s cmd a hasSharers = .ok s') :
    (s'.held = s.held ∧ ∀ p, hostBias s'.bias p = hostBias s.bias p) ∨
    (hostBias s.bias (pageNum a) = true ∧
      s'.held = (if hasSharers then s.held else update s.held (g.line a) false) ∧
      ∀ p, hostBias s'.bias p = if p = pageNum a then hasSharers else hostBias s.bias p) := by
  obtain ⟨⟨b, t⟩, hb, h⟩ := bind_eq_ok.mp h
  have ha : inCxlMem a = true := by
    by_contra ha
    simp [isHostBiasMode, ha] at hb
  rw [isHostBiasMode_ok s.bias ha] at hb
  cases hb
  by_cases hh : hostBias s.bias (pageNum a) = true
  · simp only [hh, if_true] at h
    obtain ⟨r, hr, h⟩ := bind_eq_ok.mp h
    obtain ⟨opcode, ho, rfl⟩ := HomeAgent.checkCoherenceTiming_ok hr
    obtain ⟨t', ht, h⟩ := bind_eq_ok.mp h
    cases applyMemFwd_forwarded ho ht
    cases h
    refine .inr ⟨hh, rfl, fun p => ?_⟩
    rw [hostBias_update, hostBias_update]
    split <;> rfl
  · have hf : hostBias s.bias (pageNum a) = false := by simpa using hh
    simp only [hf, Bool.false_eq_true, if_false] at h
    cases h
    refine .inl ⟨rfl, fun p => ?_⟩
    rw [← hf]
    exact hostBias_lookup s.bias (pageNum a) p

/-! ## The invariant -/

theorem held_update_false {l m : Nat} (h : s.held l = false) : update s.held m false l = false := by
  by_cases hl : l = m
  · subst hl; simp
  · simp [hl, h]

theorem safe_init (g : Geometry) : DeviceBiasSafe g St.init := by
  intro a _ _
  rfl

theorem safe_host (hs : DeviceBiasSafe g s) (h : hostStep g s cmd a = .ok s') :
    DeviceBiasSafe g s' := by
  rw [safe_iff] at hs ⊢
  intro b hb hd
  rcases hostStep_ok h with ⟨hheld, hbias⟩ | ⟨hheld, hbias⟩
  · rw [hbias, hostBias_update] at hd
    split at hd
    · cases hd
    · rename_i hp
      have hl : g.line b ≠ g.line a := fun he => hp (line_page g he)
      rw [hheld, update_of_ne hl]
      exact hs b hb hd
  · rw [hheld]
    rcases hbias with hbias | hbias
    · exact hs b hb (hbias ▸ hd)
    · rw [hbias, hostBias_update] at hd
      split at hd
      · cases hd
      · exact hs b hb hd

theorem safe_device (hs : DeviceBiasSafe g s) (hg : AloneOnPage g s (.device cmd a hasSharers))
    (h : deviceStep g s cmd a hasSharers = .ok s') : DeviceBiasSafe g s' := by
  rw [safe_iff] at hs ⊢
  intro b hb hd
  rcases deviceStep_ok h with ⟨hheld, hbias⟩ | ⟨hh, hheld, hbias⟩
  · rw [hheld]
    exact hs b hb (hbias _ ▸ hd)
  · rw [hbias] at hd
    cases hasSharers with
    | true =>
      rw [hheld]
      split at hd
      · cases hd
      · exact hs b hb hd
    | false =>
      rw [if_neg (by decide)] at hheld
      rw [hheld]
      split at hd
      · -- the page that has just left host bias: only the snooped line was held
        rename_i hp
        by_cases hl : g.line b = g.line a
        · rw [hl, update_self]
        · rw [update_of_ne hl]
          by_contra hc
          exact hl (hg hh b hb hp (by simpa using hc))
      · exact held_update_false (hs b hb hd)

/-- **Device-bias safety.** Along every run in which a check that ends without
sharers finds no other line of its page in the host's caches, a page in device
bias has no line in the host's caches. -/
theorem device_bias_safe (g : Geometry) {x : Except Fault St}
    (hr : ((machine g).under (AloneOnPage g)).Reachable x) :
    ∀ s, x = .ok s → DeviceBiasSafe g s := by
  rintro s rfl
  refine invariant (fun s hs => hs ▸ safe_init g) ?_ hr
  intro s l s' hs _ hg h
  cases l with
  | host cmd a => exact safe_host hs h
  | evict a =>
    cases h
    intro b hb hd
    exact held_update_false (hs b hb hd)
  | device cmd a hasSharers => exact safe_device hs hg h

/-- One line read by the host, then taken by the device: the page ends in
device bias and the host holds nothing. -/
theorem device_bias_safe_one_line :
    ∃ s, ((machine line64).under (AloneOnPage line64)).Reachable (.ok s) ∧
      hostBias s.bias 0x80000 = false ∧ DeviceBiasSafe line64 s := by
  obtain ⟨s1, h1⟩ : ∃ s1, step line64 .init (.host .readSharedReq 0x80000000) = .ok s1 := ⟨_, rfl⟩
  obtain ⟨s2, h2⟩ : ∃ s2, step line64 s1 (.device .readExReq 0x80000000 false) = .ok s2 := by
    cases h1
    exact ⟨_, rfl⟩
  have r1 : ((machine line64).under (AloneOnPage line64)).Reachable (.ok s1) :=
    under_step (.host .readSharedReq 0x80000000) (under_init rfl) trivial trivial h1
  have r2 : ((machine line64).under (AloneOnPage line64)).Reachable (.ok s2) := by
    refine under_step (.device .readExReq 0x80000000 false) r1 trivial ?_ h2
    cases h1
    intro _ b _ _ hb
    by_contra hne
    simp [caches, update_of_ne hne, St.init] at hb
  refine ⟨s2, r2, ?_, device_bias_safe line64 r2 s2 rfl⟩
  cases h1
  cases h2
  rfl

/-- **The bias is per page, the snoop per line.** The host reads two lines of
one page; the device takes the first. The page is then in device bias and the
host still holds the second line. -/
theorem shared_page_unsafe :
    ∃ s, (machine line64).lts.Reachable (.ok s) ∧
      (isHostBiasMode s.bias 0x80000040).map Prod.fst = .ok false ∧
      s.held (line64.line 0x80000040) = true :=
  ⟨_, lts_runs (fun _ _ => true) (fun _ _ _ => trivial)
    [.host .readSharedReq 0x80000000, .host .readSharedReq 0x80000040,
      .device .readExReq 0x80000000 false] (lts_init rfl) rfl, rfl, rfl⟩

end Gem5Cxl.L3.BiasSafety
