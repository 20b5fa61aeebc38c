import Mathlib.Data.List.Induction
import Gem5Cxl.L2Machine.PciDevice

/-!
# The capability space of a PCI endpoint

Software takes the bytes from 0x40 to 0xFFF for memory: a read returns what was
written there last (`ReadAfterWrite`). Reads look at the device's own `config`,
writes go through `config_tool`.

* `readAfterWrite_iff`: the law holds if the tool refers to the device's
  `config`, whatever the accesses overlap; if it does not, only for sequences
  that write nothing.
* `capability_space_iff`: the tool that the constructor makes does not refer to
  it.
* `written_byte_lost`: one byte written and read back.
-/
namespace Gem5Cxl.L3.CapabilitySpace

open Core L1 L2 PciDevice List

inductive Access
  | write (offset size val : Nat)
  | read (offset size : Nat)
deriving DecidableEq, Repr

namespace Access

/-- 1, 2, 4 or 8 bytes wholly in the capability space. -/
def InSpace : Access → Prop
  | .write offset size _ => size ∈ [1, 2, 4, 8] ∧ 0x40 ≤ offset ∧ offset + size ≤ 0x1000
  | .read offset size => size ∈ [1, 2, 4, 8] ∧ 0x40 ≤ offset ∧ offset + size ≤ 0x1000

def isRead : Access → Bool
  | .read .. => true
  | .write .. => false

/-- The access writes the byte at `b`. -/
def covers (b : Nat) : Access → Bool
  | .write offset size _ => offset ≤ b && b < offset + size
  | .read .. => false

/-- The byte that a write stores at `b`. -/
def stores (b : Nat) : Access → UInt8
  | .write offset _ val => byteOf val (b - offset)
  | .read .. => 0

def apply (m : Bytes) : Access → Bytes
  | .write offset size val => writeLE m offset size val
  | .read .. => m

end Access

/-- The value most recently written to the byte, or its initial value. -/
def latest (init : Bytes) (l : List Access) (b : Nat) : UInt8 :=
  match l.reverse.find? (Access.covers b) with
  | some a => a.stores b
  | none => init b

def perform (host : PciHost) (d : PciDevice) : Access → Except Fault PciDevice
  | .write offset size val => d.writeConfig host offset size val
  | .read offset size => do
    let _ ← d.readConfig offset size
    .ok d

def performAll (host : PciHost) (d : PciDevice) (l : List Access) : Except Fault PciDevice :=
  l.foldlM (perform host) d

/-- What is asked of one access of a device whose history is `l`. -/
def Obeys (host : PciHost) (init : Bytes) (l : List Access) (d : PciDevice) : Access → Prop
  | .read offset size =>
    ∃ v, d.readConfig offset size = .ok v ∧
      ∀ j, j < size → byteOf v j = latest init l (offset + j)
  | .write offset size val =>
    ∃ d', d.writeConfig host offset size val = .ok d' ∧
      ∀ b, b < offset ∨ offset + size ≤ b → d'.config b = d.config b

/-- Every access of the sequence happens, and obeys. -/
def ReadAfterWrite (host : PciHost) (d : PciDevice) (l : List Access) : Prop :=
  ∀ k a, l[k]? = some a →
    ∃ d', performAll host d (l.take k) = .ok d' ∧ Obeys host d.config (l.take k) d' a

/-! ## Histories -/

section History

variable {host : PciHost} {d : PciDevice} {l : List Access} {a : Access} (m : Bytes)

def replay (m : Bytes) (l : List Access) : Bytes := l.foldl Access.apply m

theorem apply_eq (a : Access) (b : Nat) : a.apply m b = if a.covers b then a.stores b else m b := by
  cases a with
  | read offset size => rfl
  | write offset size val =>
    simp only [Access.apply, Access.covers, Access.stores, writeLE, Bool.and_eq_true, decide_eq_true_eq]

theorem latest_snoc (l : List Access) (a : Access) (b : Nat) :
    latest m (l ++ [a]) b = if a.covers b then a.stores b else latest m l b := by
  simp only [latest, reverse_append, reverse_cons, reverse_nil, nil_append,
    singleton_append, find?_cons]
  cases a.covers b <;> rfl

theorem replay_eq_latest (l : List Access) (b : Nat) : replay m l b = latest m l b := by
  induction l using reverseRecOn with
  | nil => rfl
  | append_singleton l a ih =>
    rw [latest_snoc, ← ih, replay, foldl_append]
    exact apply_eq _ a b

end History

/-! ## The law -/

section Law

variable {host : PciHost} {d : PciDevice} {l : List Access} {offset : Nat}

theorem readOnly_capability (headerType : Nat) (h : 0x40 ≤ offset) :
    readOnly headerType offset = false := by
  simp only [readOnly, contains_cons, contains_nil, Bool.or_false,
    Bool.or_eq_false_iff, Bool.and_eq_false_iff, beq_eq_false_iff_ne]
  omega

theorem readConfig_eq {size : Nat} (hv : d.isInvisible = false) (hs : size ∈ [1, 2, 4, 8]) :
    d.readConfig offset size = .ok (readLE d.config offset size) := by
  have hc : [1, 2, 4, 8].contains size = true := contains_iff_mem.2 hs
  rw [readConfig, hv, if_neg Bool.false_ne_true, if_pos hc]

theorem writeConfig_eq {size val : Nat} (ho : 0x40 ≤ offset) (hs : size ∈ [1, 2, 4, 8]) :
    d.writeConfig host offset size val = d.setThroughTool offset size val := by
  have hc : [1, 2, 4, 8].contains size = true := contains_iff_mem.2 hs
  rw [writeConfig, readOnly_capability _ ho, if_neg Bool.false_ne_true, if_pos ho, if_pos hc]

theorem performAll_eq (hv : d.isInvisible = false) (hl : ∀ a ∈ l, a.InSpace)
    (h : d.configTool = .deviceConfig ∨ ∀ a ∈ l, a.isRead = true) :
    performAll host d l = .ok { d with config := replay d.config l } := by
  induction l generalizing d with
  | nil => rfl
  | cons a l ih =>
    obtain ⟨ha, hl⟩ := forall_mem_cons.1 hl
    have hstep : perform host d a = .ok { d with config := a.apply d.config } := by
      cases a with
      | read offset size =>
        simp only [perform, readConfig_eq hv ha.1, ok_bind]
        rfl
      | write offset size val =>
        have ht : d.configTool = .deviceConfig :=
          h.resolve_right fun hr => absurd (hr _ mem_cons_self) (by simp [Access.isRead])
        simp only [perform, writeConfig_eq ha.2.1 ha.1, setThroughTool, ht]
        rfl
    have hrest := ih (d := { d with config := a.apply d.config }) hv hl
      (h.imp_right fun hr x hx => hr x (mem_cons_of_mem _ hx))
    rw [performAll, foldlM_cons, hstep]
    exact hrest

theorem performAll_configTool {d' : PciDevice} (hl : ∀ a ∈ l, a.InSpace)
    (h : performAll host d l = .ok d') : d'.configTool = d.configTool := by
  induction l generalizing d with
  | nil =>
    cases h
    rfl
  | cons a l ih =>
    obtain ⟨ha, hl⟩ := forall_mem_cons.1 hl
    obtain ⟨d₁, h₁, h⟩ := bind_eq_ok.1 h
    have hd₁ : d₁.configTool = d.configTool := by
      cases a with
      | read offset size =>
        obtain ⟨v, -, hv⟩ := bind_eq_ok.1 h₁
        cases hv
        rfl
      | write offset size val =>
        rw [perform, writeConfig_eq ha.2.1 ha.1, setThroughTool] at h₁
        split at h₁
        · cases h₁
          rfl
        · cases h₁
    exact (ih hl h).trans hd₁

/-- **The law and the tool's reference.** -/
theorem readAfterWrite_iff (hv : d.isInvisible = false) (hl : ∀ a ∈ l, a.InSpace) :
    ReadAfterWrite host d l ↔ d.configTool = .deviceConfig ∨ ∀ a ∈ l, a.isRead = true := by
  constructor
  · intro h
    by_contra hnot
    obtain ⟨ht, hw⟩ := not_or.1 hnot
    -- the first write goes through the dead reference
    obtain ⟨a, ha, hr⟩ : ∃ a ∈ l, a.isRead ≠ true := by simpa using hw
    obtain ⟨k, hk⟩ := mem_iff_getElem?.1 ha
    obtain ⟨d', hd', ho⟩ := h k a hk
    have ht' : d'.configTool = .constructorParameter := by
      rw [performAll_configTool (fun x hx => hl x (mem_of_mem_take hx)) hd']
      cases hc : d.configTool with
      | deviceConfig => exact absurd hc ht
      | constructorParameter => rfl
    cases a with
    | read offset size => exact hr rfl
    | write offset size val =>
      obtain ⟨hs, hoff, -⟩ := hl _ ha
      obtain ⟨d'', hw, -⟩ := ho
      rw [writeConfig_eq hoff hs, setThroughTool, ht'] at hw
      cases hw
  · intro h k a hk
    have ha := mem_of_getElem? hk
    have hpre : ∀ x ∈ l.take k, x.InSpace := fun x hx => hl x (mem_of_mem_take hx)
    refine ⟨_, performAll_eq hv hpre (h.imp_right fun hr x hx => hr x (mem_of_mem_take hx)), ?_⟩
    cases a with
    | read offset size =>
      obtain ⟨hs, -⟩ := hl _ ha
      refine ⟨_, readConfig_eq hv hs, ?_⟩
      intro j hj
      rw [byteOf_readLE _ _ hj]
      exact replay_eq_latest _ _ _
    | write offset size val =>
      obtain ⟨hs, hoff, -⟩ := hl _ ha
      have ht : d.configTool = .deviceConfig :=
        h.resolve_right fun hr => absurd (hr _ ha) (by simp [Access.isRead])
      simp only [Obeys, writeConfig_eq hoff hs, setThroughTool, ht]
      exact ⟨_, rfl, fun b hb => writeLE_outside hb⟩

end Law

/-- **The capability space is read-only memory**: the accesses of every visible device obey the
law exactly if none of them is a write. -/
theorem capability_space_iff (host : PciHost) (d : PciDevice) (l : List Access)
    (hv : d.isInvisible = false) (ht : d.configTool = PCIConfigTool.new) (hl : ∀ a ∈ l, a.InSpace) :
    ReadAfterWrite host d l ↔ ∀ a ∈ l, a.isRead = true := by
  rw [readAfterWrite_iff hv hl, ht]
  exact ⟨fun h => h.resolve_left (by decide), .inr⟩

/-- Two overlapping reads. -/
theorem capability_space_iff_reads :
    ReadAfterWrite ⟨id, id⟩ { config := fun b => UInt8.ofNat b } [.read 0x40 8, .read 0x44 2] := by
  refine (capability_space_iff _ _ _ rfl rfl ?_).2 (by decide)
  intro a ha
  simp only [mem_cons, not_mem_nil, or_false] at ha
  rcases ha with rfl | rfl
  · exact ⟨by decide, by decide, by decide⟩
  · exact ⟨by decide, by decide, by decide⟩

/-- **The first write is lost**: it goes through a reference to an object that no longer exists. -/
theorem written_byte_lost :
    performAll ⟨id, id⟩ { config := fun _ => 0 } [.write 0x40 1 5] = .error .danglingPointer ∧
      ¬ ReadAfterWrite ⟨id, id⟩ { config := fun _ => 0 } [.write 0x40 1 5, .read 0x40 1] := by
  refine ⟨rfl, ?_⟩
  intro h
  obtain ⟨d, hd, -⟩ := h 1 (.read 0x40 1) rfl
  cases hd

end Gem5Cxl.L3.CapabilitySpace
