import Mathlib.Algebra.Ring.Nat
import Gem5Cxl.Core.Lts
import Gem5Cxl.L1Message.Packet

/-!
# Miss status holding registers (`mem/cache/mshr.cc`, `mem/cache/mshr.hh`)

An MSHR keeps the requests that wait for one block. `targets` are those that the
next response serves, `deferredTargets` those that came too late for it. While
the MSHR's own request is in service, snoops are kept as targets too and are
played back when the response has come.

* `TargetList`: a list of targets with flags that sum them up. The flags are
  updated as targets are added and computed again after targets have moved.
* `allocate`, `allocateTarget`, `handleSnoop`: the calls that make targets.
* `extractServiceableTargets`: the targets that a response serves.
* `promoteDeferredTargets`, `promoteReadable`, `promoteWritable`: deferred
  targets become targets.
* `Call`: the calls of the cache on an MSHR that is allocated, and what the
  caches around it do to its flags.

A packet is in one target at a time. `pkt.id` stands for its address, `upstream`
says that its sender states hold the MSHR of a cache above; what is done to the
flags of that MSHR is left out, and so are the packets' data and printing.
-/
namespace Gem5Cxl.L2.Mshrs

open Core L1

/-- The fields of a packet and its request that the MSHR uses. `noMerge`: a flag of
`no_merge_flags` is set. -/
structure MshrPacket where
  id : Nat
  cmd : MemCmd
  addr : Nat := 0
  size : Nat := 0
  isSecure : Bool := false
  cacheClean : Bool := false
  cacheInvalidate : Bool := false
  uncacheable : Bool := false
  noMerge : Bool := false
  isMasked : Bool := false
  expressSnoop : Bool := false
  upstream : Bool := false
  cacheResponding : Bool := false
  responderHadWritable : Bool := false
  satisfied : Bool := false
  hasSharers : Bool := false
deriving DecidableEq, Repr

namespace MshrPacket

variable (pkt : MshrPacket)

/-- mirrors mem/packet.hh:628-636 -/
def needsWritable : Except Fault Bool :=
  if pkt.cmd.isRequest then .ok pkt.cmd.needsWritable else .error (.assertion .isRequest)

/-- mirrors mem/request.hh:1162 -/
def isCacheMaintenance : Bool := pkt.cacheClean || pkt.cacheInvalidate

/-- mirrors mem/packet.hh:1508-1512 -/
def isMaskedWrite : Bool := pkt.cmd = .writeReq && pkt.isMasked

/-- mirrors mem/packet.hh:864-867 -/
def getOffset (blkSize : Nat) : Nat := pkt.addr &&& ((blkSize + (2 ^ 32 - 1)) % 2 ^ 32)

/-- mirrors mem/packet.hh:869-872 -/
def getBlockAddr (blkSize : Nat) : Nat := pkt.addr - pkt.getOffset blkSize

/-- mirrors mem/packet.cc:388-400 -/
def matchBlockAddr (other : MshrPacket) (blkSize : Nat) : Bool :=
  pkt.getBlockAddr blkSize = other.getBlockAddr blkSize && pkt.isSecure = other.isSecure

/-- The commands of `replaceUpgrade`. -/
def replacedCmd : MemCmd → MemCmd
  | .upgradeReq => .readExReq
  | .scUpgradeReq => .scUpgradeFailReq
  | .storeCondReq => .storeCondFailReq
  | cmd => cmd

/-- mirrors mshr.cc:189-218 -/
def replaceUpgrade : MshrPacket := { pkt with cmd := replacedCmd pkt.cmd }

end MshrPacket

/-- mirrors mshr.hh:133-138 -/
inductive Source | fromCPU | fromSnoop | fromPrefetcher
deriving DecidableEq, Repr

/-- mirrors mshr.hh:129-167 and queue_entry.hh:84-107 -/
structure Target where
  recvTime : Nat
  readyTime : Nat
  order : Nat
  pkt : MshrPacket
  source : Source
  markedPending : Bool := false
  allocOnFill : Bool := false
deriving DecidableEq, Repr

/-! ## Target lists -/

/-- mirrors mshr.hh:169-306 -/
structure TargetList where
  list : List Target := []
  needsWritable : Bool := false
  hasUpgrade : Bool := false
  allocOnFill : Bool := false
  hasFromCache : Bool := false
  blkAddr : Nat := 0
  blkSize : Nat := 0
  canMergeWrites : Bool := true
  writesBitmap : List Bool := []
deriving DecidableEq, Repr

namespace TargetList

variable (l : TargetList)

/-- mirrors mshr.hh:210-218 -/
def resetFlags : TargetList :=
  { l with
    canMergeWrites := true
    writesBitmap := List.replicate l.writesBitmap.length false
    needsWritable := false
    hasUpgrade := false
    allocOnFill := false
    hasFromCache := false }

/-- mirrors mshr.hh:202-208 -/
def init (blkAddr blkSize : Nat) : TargetList :=
  { l with blkAddr, blkSize, writesBitmap := List.replicate blkSize false }.resetFlags

/-- mirrors mshr.hh:243-246 -/
def isReset : Bool :=
  !l.needsWritable && !l.hasUpgrade && !l.allocOnFill && !l.hasFromCache && l.canMergeWrites

/-- mirrors mshr.hh:282-286 -/
def isWholeLineWrite : Bool := l.writesBitmap.all id

/-- The bytes that a write covers. mirrors mshr.cc:147-149 -/
def markWritten (pkt : MshrPacket) : Except Fault TargetList :=
  let offset := pkt.getOffset l.blkSize
  if offset + pkt.size ≤ l.writesBitmap.length then
    .ok { l with writesBitmap := l.writesBitmap.take offset ++ List.replicate pkt.size true ++
            l.writesBitmap.drop (offset + pkt.size) }
  else .error .outOfBounds

/-- mirrors mshr.cc:117-161 -/
def updateWriteFlags (pkt : MshrPacket) : Except Fault TargetList :=
  if l.isWholeLineWrite || !l.canMergeWrites then .ok l
  else if !pkt.cmd.isWrite then .ok { l with canMergeWrites := false }
  else
    let l' := { l with canMergeWrites := !pkt.noMerge }
    if !pkt.isMaskedWrite && (l.list.isEmpty || !pkt.noMerge) then l'.markWritten pkt else .ok l'

/-- mirrors mshr.cc:80-106 -/
def updateFlags (pkt : MshrPacket) (source : Source) (allocOnFill : Bool) :
    Except Fault TargetList :=
  if source = .fromSnoop then .ok l
  else do
    let writable ← pkt.needsWritable
    let l := { l with
      needsWritable := l.needsWritable || writable
      hasUpgrade := l.hasUpgrade || pkt.cmd.isUpgrade || pkt.cmd = .storeCondReq
      allocOnFill := l.allocOnFill || allocOnFill }
    if source = .fromPrefetcher then .ok l
    else updateWriteFlags { l with hasFromCache := l.hasFromCache || pkt.cmd.fromCache } pkt

/-- mirrors mshr.cc:108-115 -/
def populateFlags : Except Fault TargetList :=
  l.list.foldlM (fun l t => l.updateFlags t.pkt t.source t.allocOnFill) l.resetFlags

/-- mirrors mshr.cc:163-186 -/
def add (t : Target) : Except Fault TargetList := do
  let l ← l.updateFlags t.pkt t.source t.allocOnFill
  .ok { l with list := l.list ++ [{ t with markedPending := t.markedPending && t.pkt.upstream }] }

/-- mirrors mshr.cc:221-232 -/
def replaceUpgrades : TargetList :=
  if l.hasUpgrade then
    { l with list := l.list.map fun t => { t with pkt := t.pkt.replaceUpgrade }, hasUpgrade := false }
  else l

/-- mirrors mshr.cc:235-260 -/
def clearDownstreamPending (ts : List Target) : List Target :=
  ts.map fun t => { t with markedPending := false }

def front : Except Fault Target :=
  match l.list with
  | t :: _ => .ok t
  | [] => .error .endIterator

end TargetList

/-! ## MSHRs -/

/-- mirrors mshr.hh:77-126,359-366 and queue_entry.hh:71-129 -/
structure Mshr where
  readyTime : Nat := 0
  order : Nat := 0
  blkAddr : Nat := 0
  blkSize : Nat := 0
  isSecure : Bool := false
  isUncacheable : Bool := false
  inService : Bool := false
  downstreamPending : Bool := false
  pendingModified : Bool := false
  postInvalidate : Bool := false
  postDowngrade : Bool := false
  wasWholeLineWrite : Bool := false
  isForward : Bool := false
  targets : TargetList := {}
  deferredTargets : TargetList := {}
deriving DecidableEq, Repr

/-- What `handleSnoop` does: to the MSHR, to the snooped packet, and the target it has made. -/
structure Snooped where
  mshr : Mshr
  pkt : MshrPacket
  willRespond : Bool
  saved : Option Target := none
deriving DecidableEq, Repr

namespace Mshr

variable (m : Mshr)

/-- mirrors mshr.hh:446-447 -/
def getNumTargets : Nat := m.targets.list.length + m.deferredTargets.list.length

/-- The target that `allocate` and `allocateTarget` make. -/
def cpuTarget (tick : Nat) (pkt : MshrPacket) (whenReady order : Nat) (source : Source)
    (markPending allocOnFill : Bool) : Target where
  recvTime := tick
  readyTime := whenReady
  order := order
  pkt := pkt
  source := source
  markedPending := markPending
  allocOnFill := allocOnFill

/-- The source of the first target. mirrors mshr.cc:324-325 -/
def firstSource (target : MshrPacket) : Source :=
  if target.cmd = .hardPFReq then .fromPrefetcher else .fromCPU

/-- mirrors mshr.cc:303-330 -/
def allocate (tick blkAddr blkSize : Nat) (target : MshrPacket) (whenReady order : Nat)
    (allocOnFill : Bool) : Except Fault Mshr := do
  let targets ← (m.targets.init blkAddr blkSize).add
    (cpuTarget tick target whenReady order (firstSource target) true allocOnFill)
  let first ← targets.front
  if target.matchBlockAddr first.pkt blkSize then
    .ok { m with
      blkAddr, blkSize
      isSecure := target.isSecure
      readyTime := whenReady
      order
      isForward := false
      wasWholeLineWrite := false
      isUncacheable := target.uncacheable
      inService := false
      downstreamPending := false
      targets
      deferredTargets := m.deferredTargets.init blkAddr blkSize }
  else .error (.assertion .matchBlockAddr)

/-- mirrors mshr.cc:333-341 -/
def clearDownstreamPending : Except Fault Mshr :=
  if m.downstreamPending then
    .ok { m with
      downstreamPending := false
      targets := { m.targets with list := TargetList.clearDownstreamPending m.targets.list } }
  else .error (.assertion .downstreamPending)

/-- mirrors mshr.cc:343-361 -/
def markInService (pendingModifiedResp : Bool) : Except Fault Mshr :=
  if m.inService then .error (.assertion .notInService)
  else
    let targets := if m.downstreamPending then m.targets
      else { m.targets with list := TargetList.clearDownstreamPending m.targets.list }
    .ok { m with
      inService := true
      pendingModified := m.targets.needsWritable || pendingModifiedResp
      postInvalidate := false
      postDowngrade := false
      targets
      wasWholeLineWrite := m.targets.isWholeLineWrite }

/-- mirrors mshr.cc:364-371 -/
def deallocate : Except Fault Mshr :=
  if m.targets.list ≠ [] then .error (.assertion .targetsEmpty)
  else if m.deferredTargets.isReset = false then .error (.assertion .targetsReset)
  else .ok { m with targets := m.targets.resetFlags, inService := false }

/-- mirrors mshr.hh:516-520 -/
def delay (tick delayTicks : Nat) : Except Fault Mshr :=
  if m.readyTime ≤ tick then .ok { m with readyTime := (tick + delayTicks) % 2 ^ 64 }
  else .error (.assertion .readyTimePassed)

/-- Whether a new target has to wait for the next response. mirrors mshr.cc:399-405 -/
def defers (pkt front : MshrPacket) : Bool :=
  pkt.isCacheMaintenance || front.isCacheMaintenance || !m.deferredTargets.list.isEmpty ||
    (m.inService &&
      (m.postInvalidate ||
        (pkt.cmd.needsWritable && (!m.pendingModified || m.postDowngrade || m.isForward))))

/-- mirrors mshr.cc:376-421 -/
def allocateTarget (tick : Nat) (pkt : MshrPacket) (whenReady order : Nat) (allocOnFill : Bool) :
    Except Fault Mshr :=
  if pkt.cmd = .hardPFReq then .error (.assertion .notHardPF)
  else do
    let front ← m.targets.front
    if m.defers pkt front.pkt then do
      let pkt := if m.inService && m.postInvalidate then pkt.replaceUpgrade else pkt
      let deferredTargets ← m.deferredTargets.add
        (cpuTarget tick pkt whenReady order .fromCPU true allocOnFill)
      .ok { m with deferredTargets }
    else do
      let targets ← m.targets.add
        (cpuTarget tick pkt whenReady order .fromCPU (!m.inService) allocOnFill)
      .ok { m with targets }

/-! ### Snoops -/

/-- The copy of a snooped packet that is kept. A copy that is not for a response has a request
of its own. mirrors mshr.cc:498-500 -/
def copyPacket (pkt : MshrPacket) (copy : Nat) (willRespond : Bool) : MshrPacket where
  id := copy
  cmd := pkt.cmd
  addr := if willRespond then pkt.addr else pkt.getBlockAddr m.blkSize
  size := if willRespond then pkt.size else m.blkSize
  isSecure := pkt.isSecure
  cacheClean := pkt.cacheClean
  cacheInvalidate := pkt.cacheInvalidate
  uncacheable := pkt.uncacheable
  noMerge := pkt.noMerge
  isMasked := pkt.isMasked
  upstream := willRespond && pkt.upstream

/-- The flags of the snooped packet. mirrors mshr.cc:502-523 -/
def answer (pkt : MshrPacket) (willRespond : Bool) : Except Fault MshrPacket :=
  if willRespond then
    if pkt.cacheResponding then .error (.assertion .notCacheResponding)
    else if pkt.responderHadWritable then .error (.assertion .notResponderHadWritable)
    else .ok { pkt with cacheResponding := true, responderHadWritable := true }
  else if m.pendingModified && pkt.cmd.isClean then .ok { pkt with satisfied := true }
  else .ok pkt

/-- A snoop that has to be played back. mirrors mshr.cc:479-532 -/
def saveSnoop (tick : Nat) (pkt : MshrPacket) (order copy : Nat) (willRespond : Bool) :
    Except Fault Snooped :=
  if m.pendingModified || pkt.cmd.isInvalidate then do
    let pkt' ← m.answer pkt willRespond
    let t : Target := {
      recvTime := tick
      readyTime := tick
      order
      pkt := m.copyPacket pkt copy willRespond
      source := .fromSnoop
      markedPending := m.downstreamPending && m.targets.needsWritable }
    let targets ← m.targets.add t
    .ok {
      mshr := { m with
        targets
        postInvalidate := m.postInvalidate || pkt.cmd.needsWritable || pkt.cmd.isInvalidate }
      pkt := pkt'
      willRespond
      saved := some t }
  else .ok { mshr := m, pkt, willRespond }

/-- A snoop of a block that the MSHR will get. mirrors mshr.cc:475-544 -/
def snoopPending (tick : Nat) (pkt : MshrPacket) (order copy : Nat) : Except Fault Snooped := do
  let r ← m.saveSnoop tick pkt order copy
    (m.pendingModified && pkt.cmd.needsResponse && !pkt.cmd.isClean)
  if !pkt.cmd.needsWritable && !pkt.uncacheable then
    .ok { r with
      mshr := { r.mshr with postDowngrade := true }
      pkt := { r.pkt with hasSharers := true } }
  else .ok r

/-- mirrors mshr.cc:423-545 -/
def handleSnoop (tick : Nat) (pkt : MshrPacket) (order copy : Nat) : Except Fault Snooped := do
  let writable ← pkt.needsWritable
  let upgraded (l : TargetList) := if writable || pkt.cacheInvalidate then l.replaceUpgrades else l
  if writable ≠ pkt.cmd.isInvalidate ∧ pkt.isCacheMaintenance = false then
    .error (.panic "%s got snoop %s where needsWritable, does not match isInvalidate")
  else if !m.inService || (pkt.expressSnoop && m.downstreamPending) then
    .ok {
      mshr := { m with
        targets := upgraded m.targets
        deferredTargets := upgraded m.deferredTargets }
      pkt
      willRespond := false }
  else do
    let m := { m with deferredTargets := upgraded m.deferredTargets }
    let front ← m.targets.front
    if m.postInvalidate || front.pkt.cacheInvalidate then .ok { mshr := m, pkt, willRespond := true }
    else m.snoopPending tick pkt order copy

/-! ### Responses -/

/-- Of the targets after the first: the snoops, which are served, and the rest, which are not.
mirrors mshr.cc:566-574 -/
def splitSnoops : List Target → Except Fault (List Target × List Target)
  | [] => .ok ([], [])
  | t :: ts =>
    match t.source with
    | .fromCPU => do
      let (ready, kept) ← splitSnoops ts
      .ok (ready, t :: kept)
    | .fromSnoop => do
      let (ready, kept) ← splitSnoops ts
      .ok (t :: ready, kept)
    | .fromPrefetcher => .error (.assertion .fromSnoop)

/-- mirrors mshr.cc:558-575 -/
def splitFirst : List Target → Except Fault (List Target × List Target)
  | [] => .error .endIterator
  | t :: ts =>
    if t.source = .fromSnoop then .error (.assertion .notFromSnoop)
    else if t.pkt.cmd = .lockedRMWReadReq then .ok ([t], t :: ts)
    else do
      let (ready, kept) ← splitSnoops ts
      .ok (t :: ready, kept)

/-- mirrors mshr.cc:578-588 -/
def splitAll : List Target → List Target × List Target
  | [] => ([], [])
  | t :: ts =>
    if t.pkt.cmd = .lockedRMWReadReq then ([t], t :: ts)
    else
      let (ready, kept) := splitAll ts
      (t :: ready, kept)

/-- The targets that a response serves, and those that stay. -/
def serviceable (response : MemCmd) (ts : List Target) : Except Fault (List Target × List Target) :=
  if response = .readRespWithInvalidate then splitFirst ts else .ok (splitAll ts)

/-- mirrors mshr.cc:547-594 -/
def extractServiceableTargets (response : MemCmd) : Except Fault (Mshr × TargetList) := do
  let (ready, kept) ← serviceable response m.targets.list
  let empty : TargetList := {}
  let readyTargets ← { empty.init m.blkAddr m.blkSize with list := ready }.populateFlags
  let targets ← { m.targets with list := kept }.populateFlags
  .ok ({ m with targets }, readyTargets)

/-! ### Promotion -/

/-- The deferred targets that `promoteDeferredTargets` moves, and those that stay.
mirrors mshr.cc:608-625 -/
def promotable : List Target × List Target :=
  let deferred := m.deferredTargets.list
  let before := deferred.takeWhile fun t => !t.pkt.isCacheMaintenance
  if before.isEmpty then
    if m.targets.list.isEmpty then (deferred.take 1, deferred.drop 1) else ([], deferred)
  else (before, deferred.drop before.length)

/-- mirrors mshr.cc:596-633 -/
def promoteDeferredTargets (tick : Nat) : Except Fault (Mshr × Bool) :=
  if m.targets.list.isEmpty && m.deferredTargets.list.isEmpty then .ok (m, false)
  else do
    let (moved, kept) := m.promotable
    let deferredTargets ← { m.deferredTargets with list := kept }.populateFlags
    let targets ← { m.targets with list := m.targets.list ++ moved }.populateFlags
    let front ← targets.front
    .ok ({ m with
      deferredTargets, targets
      order := front.order
      readyTime := max tick front.readyTime }, true)

/-- The targets up to the first that fails `pred`, and the rest. -/
def splitIf (pred : Target → Except Fault Bool) :
    List Target → Except Fault (List Target × List Target)
  | [] => .ok ([], [])
  | t :: ts => do
    if ← pred t then do
      let (moved, kept) ← splitIf pred ts
      .ok (t :: moved, kept)
    else .ok ([], t :: ts)

/-- mirrors mshr.cc:635-656 -/
def promoteIf (pred : Target → Except Fault Bool) : Except Fault Mshr :=
  if m.downstreamPending then .error (.assertion .notDownstreamPending)
  else do
    let (moved, kept) ← splitIf pred m.deferredTargets.list
    let deferredTargets ← { m.deferredTargets with list := kept }.populateFlags
    .ok { m with
      targets := { m.targets with
        list := m.targets.list ++ TargetList.clearDownstreamPending moved }
      deferredTargets }

/-- mirrors mshr.cc:670-674 -/
def needsNoWritable (t : Target) : Except Fault Bool :=
  if t.source ≠ .fromCPU then .error (.assertion .fromCPU)
  else if t.pkt.cacheInvalidate then .ok false
  else do
    let writable ← t.pkt.needsWritable
    .ok !writable

/-- mirrors mshr.cc:658-677 -/
def promoteReadable : Except Fault Mshr :=
  if m.deferredTargets.list.isEmpty then .ok m
  else if m.inService = false then .error (.assertion .inService)
  else if m.postInvalidate then .ok m
  else m.promoteIf needsNoWritable

/-- mirrors mshr.cc:699-702 -/
def noInvalidate (t : Target) : Except Fault Bool :=
  if t.source ≠ .fromCPU then .error (.assertion .fromCPU) else .ok !t.pkt.cacheInvalidate

/-- mirrors mshr.cc:679-706 -/
def promoteWritable : Except Fault Mshr :=
  if m.deferredTargets.list.isEmpty then .ok m
  else do
    let front ← m.deferredTargets.front
    if m.deferredTargets.needsWritable = false then .ok m
    else if m.inService = false then .error (.assertion .inService)
    else if m.postInvalidate || m.postDowngrade || front.pkt.cacheInvalidate then .ok m
    else if m.targets.needsWritable then .error (.assertion .notNeedsWritable)
    else promoteIf { m with targets := { m.targets with needsWritable := true } } noInvalidate

/-! ### Calls -/

/-- The calls of the cache on an allocated MSHR. `markDownstreamPending` is what the MSHR of a
cache below does when it takes the MSHR's packet as a target (`TargetList::add`), and `forward`
what the cache sets when it sends the packet. `copy` is the address of a packet that is new. -/
inductive Call
  | allocateTarget (pkt : MshrPacket) (whenReady order : Nat) (allocOnFill : Bool)
  | handleSnoop (pkt : MshrPacket) (order copy : Nat)
  | extractServiceableTargets (response : MemCmd)
  | promoteDeferredTargets
  | promoteReadable
  | promoteWritable
  | markDownstreamPending
  | clearDownstreamPending
  | forward (isForward : Bool)
deriving DecidableEq, Repr

/-- What a call leaves, the targets it has made, and the targets it has handed out. -/
structure Reply where
  mshr : Mshr
  made : List Target := []
  handedOut : List Target := []

def call (tick : Nat) : Call → Except Fault Reply
  | .allocateTarget pkt whenReady order allocOnFill => do
    let mshr ← m.allocateTarget tick pkt whenReady order allocOnFill
    .ok { mshr, made := [cpuTarget tick pkt whenReady order .fromCPU true allocOnFill] }
  | .handleSnoop pkt order copy => do
    let r ← m.handleSnoop tick pkt order copy
    .ok { mshr := r.mshr, made := r.saved.toList }
  | .extractServiceableTargets response => do
    let (mshr, ready) ← m.extractServiceableTargets response
    .ok { mshr, handedOut := ready.list }
  | .promoteDeferredTargets => do
    let (mshr, _) ← m.promoteDeferredTargets tick
    .ok { mshr }
  | .promoteReadable => do
    let mshr ← m.promoteReadable
    .ok { mshr }
  | .promoteWritable => do
    let mshr ← m.promoteWritable
    .ok { mshr }
  | .markDownstreamPending =>
    if m.downstreamPending then .error (.assertion .notDownstreamPending)
    else .ok { mshr := { m with downstreamPending := true } }
  | .clearDownstreamPending => do
    let mshr ← m.clearDownstreamPending
    .ok { mshr }
  | .forward isForward => .ok { mshr := { m with isForward } }

end Mshr

end Gem5Cxl.L2.Mshrs
