import Gem5Cxl.Core.Bytes
import Gem5Cxl.L2Machine.RangeMap

/-!
# Memories (`mem/abstract_mem.cc`, `mem/abstract_mem.hh`)

`AbstractMemory::access` performs a packet at memory. A load-locked leaves a
record of its granule of 16 bytes and its context in `lockedAddrList`, one for
each context; a store removes the records of its granule (`checkLockedAddrList`),
and a store-conditional succeeds only if it finds its own.

* `Outcome`: what an access does. `stores` are the bytes it stores, with their
  values, so that a byte written with the value it had is still written.
* `plan`, `access`: an access, and the memory after it.

The records are kept by the request's physical address, the data by the packet's
address. An atomic operation is any function of the bytes of the packet. Bytes
are named by their address, not by their place in the host's array.
`globalClearExclusive`, the backdoor, statistics and tracing are left out.
-/
namespace Gem5Cxl.L2.AbstractMem

open Core L1 L2.RangeMap

/-- The fields of a packet and its request that `access` uses. Byte `j` of the packet's data is
`data j`; `byteEnable` is empty if all bytes are enabled. -/
structure MemPacket where
  cmd : MemCmd
  addr : Nat
  size : Nat
  paddr : Nat
  contextId : Option Nat := none
  cacheResponding : Bool := false
  data : Nat → UInt8 := fun _ => 0
  byteEnable : List Bool := []
  isAtomic : Bool := false
  atomicOpFunctor : Option ((Nat → UInt8) → Nat → UInt8) := none
  isCondSwap : Bool := false
  extraData : Option Nat := none
  isInstFetch : Bool := false

namespace MemPacket

variable (pkt : MemPacket)

/-- mirrors mem/packet.hh:1508-1512 and mem/request.hh:758-765 -/
def isMaskedWrite : Bool := pkt.cmd = .writeReq && pkt.byteEnable.contains false

/-- mirrors mem/packet.cc:242-246 -/
def getAddrRange : AddrRange := rangeSize pkt.addr pkt.size

/-- The request's `contextId()`. mirrors mem/request.hh:950-956 -/
def getContextId : Except Fault Nat :=
  match pkt.contextId with
  | some c => .ok c
  | none => .error (.assertion .hasContextId)

/-- The request's `getExtraData()`. mirrors mem/request.hh:929-934 -/
def getExtraData : Except Fault Nat :=
  match pkt.extraData with
  | some v => .ok v
  | none => .error (.assertion .extraDataValid)

/-- mirrors mem/packet.hh:1120-1130 -/
def makeResponse : Except Fault MemPacket :=
  if pkt.cmd.needsResponse = false then .error (.assertion .needsResponse)
  else if pkt.cmd.isRequest = false then .error (.assertion .isRequest)
  else .ok { pkt with cmd := pkt.cmd.responseCommand }

/-- The bytes from `pkt.addr` on, with the values of `v`. -/
def region (v : Nat → UInt8) (b : Nat) : Option UInt8 :=
  if pkt.addr ≤ b ∧ b < pkt.addr + pkt.size then some (v (b - pkt.addr)) else none

/-- The bytes that `writeData` copies. mirrors mem/packet.hh:1380-1396 -/
def writeData : Except Fault (Nat → Option UInt8) :=
  if pkt.isMaskedWrite then
    if pkt.byteEnable.length ≠ pkt.size then .error (.assertion .byteEnableSize)
    else .ok fun b => if pkt.byteEnable.getD (b - pkt.addr) false then pkt.region pkt.data b else none
  else .ok (pkt.region pkt.data)

end MemPacket

/-- mirrors abstract_mem.hh:67-101 -/
structure LockedAddr where
  addr : Nat
  contextId : Nat
deriving DecidableEq, Repr

/-- mirrors abstract_mem.hh:84 -/
def LockedAddr.mask (paddr : Nat) : Nat := paddr / 16 * 16

/-- `hasMem`: `pmemAddr` is not null. -/
structure AbstractMemory where
  range : AddrRange
  writeable : Bool := true
  hasMem : Bool := true
  mem : Bytes := fun _ => 0
  lockedAddrList : List LockedAddr := []

/-- What an access leaves of the records and of its packet, and the bytes it stores. -/
structure Outcome where
  lockedAddrList : List LockedAddr
  pkt : MemPacket
  stores : Nat → Option UInt8 := fun _ => none

namespace AbstractMemory

variable (m : AbstractMemory) (pkt : MemPacket)

/-- The first record of the context gets the new address. mirrors abstract_mem.cc:268-275 -/
def relock (c paddr : Nat) : List LockedAddr → Option (List LockedAddr)
  | [] => none
  | l :: ls =>
    if l.contextId = c then some ({ l with addr := paddr } :: ls)
    else (relock c paddr ls).map (l :: ·)

/-- mirrors abstract_mem.cc:257-282 -/
def trackLoadLocked : Except Fault (List LockedAddr) := do
  let c ← pkt.getContextId
  let paddr := LockedAddr.mask pkt.paddr
  .ok ((relock c paddr m.lockedAddrList).getD (⟨paddr, c⟩ :: m.lockedAddrList))

/-- The search for the record of a store-conditional. `matchesContext` is called on the records
of its granule only. mirrors abstract_mem.cc:309-322 -/
def findLock (paddr : Nat) : List LockedAddr → Except Fault Bool
  | [] => .ok false
  | l :: ls =>
    if l.addr = paddr then do
      let c ← pkt.getContextId
      if l.contextId = c then .ok true else findLock paddr ls
    else findLock paddr ls

/-- mirrors abstract_mem.cc:289-352 -/
def checkLockedAddrList : Except Fault (List LockedAddr × MemPacket × Bool) := do
  let paddr := LockedAddr.mask pkt.paddr
  let cleared := m.lockedAddrList.filter fun l => l.addr ≠ paddr
  if pkt.cmd.isLLSC then do
    let allowStore ← findLock pkt paddr m.lockedAddrList
    let pkt := { pkt with extraData := some (if allowStore then 1 else 0) }
    .ok (if allowStore then cleared else m.lockedAddrList, pkt, allowStore)
  else .ok (cleared, pkt, true)

/-- mirrors abstract_mem.hh:155-172 -/
def writeOK : Except Fault (List LockedAddr × MemPacket × Bool) :=
  if m.writeable = false then .ok (m.lockedAddrList, pkt, false)
  else if m.lockedAddrList.isEmpty then
    if pkt.cmd.isLLSC then .ok ([], { pkt with extraData := some 0 }, false)
    else .ok ([], pkt, true)
  else m.checkLockedAddrList pkt

/-- The data of the packet after `setData(host_addr)`. -/
def readData : MemPacket := { pkt with data := fun j => m.mem (pkt.addr + j) }

/-- An atomic operation. mirrors abstract_mem.cc:399-403 -/
def atomicOp : Except Fault Outcome :=
  if m.hasMem then
    match pkt.atomicOpFunctor with
    | some op => .ok {
        lockedAddrList := m.lockedAddrList
        pkt := m.readData pkt
        stores := pkt.region (op fun j => m.mem (pkt.addr + j)) }
    | none => .error (.assertion .atomicOpFunctor)
  else .ok { lockedAddrList := m.lockedAddrList, pkt }

/-- Whether a conditional swap finds its value. mirrors abstract_mem.cc:418-429 -/
def overwriteMem : Except Fault Bool :=
  if pkt.isCondSwap then
    if pkt.size = 8 ∨ pkt.size = 4 then do
      let v ← pkt.getExtraData
      .ok (v % 256 ^ pkt.size = readLE m.mem pkt.addr pkt.size)
    else .error (.panic "Invalid size for conditional read/write\n")
  else .ok true

/-- A swap. mirrors abstract_mem.cc:405-436 -/
def swap : Except Fault Outcome :=
  if m.hasMem = false then
    .error (.panic "Swap only works if there is real memory (i.e. null=False)")
  else do
    let overwrite ← m.overwriteMem pkt
    if pkt.isInstFetch then .error (.assertion .notInstFetch)
    else .ok {
      lockedAddrList := m.lockedAddrList
      pkt := m.readData pkt
      stores := if overwrite then pkt.region pkt.data else fun _ => none }

/-- mirrors abstract_mem.cc:439-448 -/
def read : Except Fault Outcome := do
  if pkt.cmd.isWrite then .error (.assertion .notWrite)
  else if pkt.cmd.isLLSC then
    if pkt.cmd.fromCache then .error (.assertion .notFromCache)
    else do
      let locks ← m.trackLoadLocked pkt
      .ok { lockedAddrList := locks, pkt := if m.hasMem then m.readData pkt else pkt }
  else .ok {
    lockedAddrList := m.lockedAddrList
    pkt := if m.hasMem then m.readData pkt else pkt }

/-- The bytes that a write stores, if there is memory. mirrors abstract_mem.cc:462-466 -/
def written : Except Fault (Nat → Option UInt8) :=
  if m.hasMem then pkt.writeData else .ok fun _ => none

/-- mirrors abstract_mem.cc:461-471 -/
def write : Except Fault Outcome := do
  let (locks, pkt, ok) ← m.writeOK pkt
  if ok then do
    let stores ← m.written pkt
    if pkt.isInstFetch then .error (.assertion .notInstFetch)
    else .ok { lockedAddrList := locks, pkt, stores }
  else .ok { lockedAddrList := locks, pkt }

/-- The branch of `access` that the command selects. mirrors abstract_mem.cc:398-474 -/
def perform : Except Fault Outcome :=
  if pkt.cmd = .swapReq then
    if pkt.isAtomic then m.atomicOp pkt else m.swap pkt
  else if pkt.cmd.isRead then m.read pkt
  else if pkt.cmd.isInvalidate || pkt.cmd.isClean then
    if pkt.cmd.isWrite then .error (.assertion .notWrite)
    else .ok { lockedAddrList := m.lockedAddrList, pkt }
  else if pkt.cmd.isWrite then m.write pkt
  else .error (.panic "Unexpected packet %s")

def ignores : Bool := pkt.cacheResponding || pkt.cmd = .cleanEvict || pkt.cmd = .writebackClean

/-- What an access does. mirrors abstract_mem.cc:379-479 -/
def plan : Except Fault Outcome :=
  if ignores pkt then .ok { lockedAddrList := m.lockedAddrList, pkt }
  else do
    let inside ← pkt.getAddrRange.isSubset m.range
    if inside = false then .error (.assertion .inRange)
    else do
      let o ← m.perform pkt
      if pkt.cmd.needsResponse then do
        let pkt ← o.pkt.makeResponse
        .ok { o with pkt }
      else .ok o

def after (o : Outcome) : AbstractMemory :=
  { m with lockedAddrList := o.lockedAddrList, mem := fun b => (o.stores b).getD (m.mem b) }

/-- mirrors abstract_mem.cc:379-479 -/
def access : Except Fault (AbstractMemory × MemPacket) := do
  let o ← m.plan pkt
  .ok (m.after o, o.pkt)

end AbstractMemory

end Gem5Cxl.L2.AbstractMem
