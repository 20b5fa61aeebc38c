import Gem5Cxl.L1Message.Packet
import Mathlib.Logic.Function.Basic

/-!
# Descriptors of virtio (`dev/virtio/base.cc`)

The loops over a chain take the number of descriptors they may visit and have no result if it does
not suffice.
-/
namespace Gem5Cxl.L2.Virtio

open L1 List

/-- The flags are `VRING_DESC_F_NEXT` and `VRING_DESC_F_WRITE`. -/
structure VringDesc where
  addr : Nat := 0
  len : Nat := 0
  hasNext : Bool := false
  isOutgoing : Bool := false
  next : Nat := 0

structure VirtQueue where
  size : Nat
  address : Nat
  descriptors : Nat → VringDesc

/-- mirrors base.cc:137-145 -/
def VringDesc.next? (d : VringDesc) : Option Nat := if d.hasNext then some d.next else none

/-- mirrors base.cc:77-94; `guest` is the table in the memory of the guest -/
def update (q : VirtQueue) (guest : Nat → VringDesc) (i : Nat) : Except Fault VirtQueue :=
  if q.address = 0 then .ok q
  else if i < q.size then .ok { q with descriptors := Function.update q.descriptors i (guest i) }
  else .error (.assertion .descriptorIndex)

def loopPanic : Fault := .panic "Loop in descriptor chain!\n"

/-- mirrors base.cc:96-106; `none` if it takes more than `fuel` updates -/
def updateChain (guest : Nat → VringDesc) (this : Nat) :
    Nat → VirtQueue → Nat → ExceptT Fault Option VirtQueue
  | 0, _, _ => none
  | fuel + 1, q, i => do
    let q ← update q guest i
    match (q.descriptors i).next? with
    | none => return q
    | some j => if j = this then throw loopPanic else updateChain guest this fuel q j

/-- The loop of `chainRead`, `chainWrite` and `chainSize` (base.cc:171-227): `visit` is what it does
with a descriptor, and `more` whether it goes on with the next one. -/
def traverse {σ : Type} (descriptors : Nat → VringDesc) (visit : σ → VringDesc → Except Fault σ)
    (more : σ → VringDesc → Bool) : Nat → Nat → σ → ExceptT Fault Option σ
  | 0, _, _ => none
  | fuel + 1, i, s => do
    let s ← visit s (descriptors i)
    match (descriptors i).next? with
    | none => return s
    | some j =>
      if more s (descriptors j) then traverse descriptors visit more fuel j s else return s

/-- mirrors base.cc:217-227 -/
def chainSize (descriptors : Nat → VringDesc) (fuel i : Nat) : ExceptT Fault Option Nat :=
  traverse descriptors (fun size d => .ok (size + d.len)) (fun _ _ => true) fuel i 0

/-- mirrors base.cc:147-157, for an offset in the buffer -/
def VringDesc.read (mem : Nat → UInt8) (d : VringDesc) (offset size : Nat) :
    Except Fault (List UInt8) :=
  if d.len - offset < size then .error (.assertion .descriptorSize)
  else if d.isOutgoing then .error (.panic "Trying to read from outgoing buffer\n")
  else .ok ((range' (d.addr + offset) size).map mem)

/-- The bytes of `src` are written to the addresses, in order. -/
def writeBytes (mem : Nat → UInt8) (addrs : List Nat) (src : List UInt8) : Nat → UInt8 :=
  (addrs.zip src).foldl (fun mem x => Function.update mem x.1 x.2) mem

/-- mirrors base.cc:159-169, for an offset in the buffer -/
def VringDesc.write (mem : Nat → UInt8) (d : VringDesc) (offset : Nat) (src : List UInt8)
    (size : Nat) : Except Fault (Nat → UInt8) :=
  if d.len - offset < size then .error (.assertion .descriptorSize)
  else if !d.isOutgoing then .error (.panic "Trying to write to incoming buffer\n")
  else .ok (writeBytes mem (range' (d.addr + offset) size) src)

/-- The body of the loop of `chainRead` and `chainWrite`: `access` has the effect of one descriptor.
The state has the offset and the size that are left. -/
def accessPart {α : Type} (access : α → VringDesc → Nat → Nat → Except Fault α) (s : Nat × Nat × α)
    (d : VringDesc) : Except Fault (Nat × Nat × α) :=
  let (offset, size, a) := s
  if offset < d.len then do
    let chunk_size := min (d.len - offset) size
    return (0, size - chunk_size, ← access a d offset chunk_size)
  else .ok (offset - d.len, size, a)

def chainAccess {α : Type} (access : α → VringDesc → Nat → Nat → Except Fault α)
    (more : VringDesc → Bool) (failed : Nat → Nat → Fault) (descriptors : Nat → VringDesc)
    (fuel i offset size : Nat) (a : α) : ExceptT Fault Option α := do
  let (offset, left, a) ← traverse descriptors (accessPart access)
    (fun s d => more d && 0 < s.2.1) fuel i (offset, size, a)
  if left = 0 then return a
  let n ← chainSize descriptors fuel i
  throw (failed n offset)

/-- mirrors base.cc:171-192 -/
def chainRead (mem : Nat → UInt8) (descriptors : Nat → VringDesc) (fuel i offset size : Nat) :
    ExceptT Fault Option (List UInt8) :=
  chainAccess (fun dst d offset n => return dst ++ (← d.read mem offset n)) (!·.isOutgoing)
    (fun n offset =>
      .panic s!"Failed to read {size} bytes from chain of {n} bytes @ offset {offset}\n")
    descriptors fuel i offset size []

/-- mirrors base.cc:194-215 -/
def chainWrite (mem : Nat → UInt8) (descriptors : Nat → VringDesc) (fuel i offset : Nat)
    (src : List UInt8) : ExceptT Fault Option (Nat → UInt8) :=
  let size := src.length
  Prod.fst <$> chainAccess
    (fun (mem, src) d offset n => return (← d.write mem offset src n, src.drop n)) (fun _ => true)
    (fun n offset =>
      .panic s!"Failed to write {size} bytes into chain of {n} bytes @ offset {offset}\n")
    descriptors fuel i offset size (mem, src)

end Gem5Cxl.L2.Virtio
