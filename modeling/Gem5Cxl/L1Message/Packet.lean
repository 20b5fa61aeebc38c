import Gem5Cxl.L1Message.Command

/-!
# CXL messages, requests and packets

A `Packet` travels between two components; the `Request` behind it travels
from the requester to the target and back, shared by every packet that
conveys it. The CXL extension hangs its messages on the request
(`mem/request.hh:102-141`): the kind of message (`cxl_packet_type`), a
CXL.mem message (`cxl_req`), a CXL.cache message (`cxl_cache`) and data
messages. Components change these fields in place, so who wrote them last
decides what the next component does.

* `CxlReq`: CXL.mem messages (`mem/cxl/cxl_packet.hh`).
* `CxlCache`: CXL.cache messages (`mem/cxl/cxl_cache_packet.hh`).
* `Request`, `Packet`: the fields the modelled components read or write.

Addresses are natural numbers; 64-bit wrap-around is written out where it can
happen. Messages are compared by their contents, not by the object's address.
The header fields every constructor call sets to 0 (tag, ids, reserved bits)
are left out: nothing but the printers reads them. `cxl_req_type` and
`cxl_cache_type` are kept apart from the message body, since the source
switches on them before it casts.

A `Fault` is a run of the simulator that ends: a panic, a failed assertion,
an access the C++ standard gives no meaning to, or a loop that never ends.
-/
namespace Gem5Cxl.L1

/-- The identity of a `Request` object (the `RequestPtr` that keys routing tables). -/
abbrev ReqId := Nat

/-- mirrors request.hh:102-112 -/
inductive CXLPacketType
  | defaultPacket | cxlMemPacket | cxlMemDataPacket | cxlCachePacket | cxlCacheDataPacket
  | hostBiasCheck | cxlProcReq | cxlCacheH2DReq | cxlCacheH2DResp
deriving DecidableEq, Repr

/-! ## Faults -/

inductive Assertion
  | biasAddr | cxlReqPresent | routeToAbsent | routeToPresent | outstandingNonzero | transmitListNonempty
  -- crossbar layers
  | layerBusy | layerIdle | notWaitingForLayer | waitingForLayerNonempty
  | waitingForPeerNull | waitingForPeerSet | untilNonzero
  -- snoop filter
  | finishFollowsLookup | isEviction | isRequest | isResponse | cacheResponding | anyPort
  | notWriteback | invalidateNeedsWritable
  -- coherent crossbars
  | expressSnoopResponding | isExpressSnoop | notExpressSnoop | needsResponse | noSnoopResp | snoopAbsent
  | deferredResponse | notSamePort | snoopFromPort | notBypassCaches
  -- ports that send a region in chunks
  | pendingNonzero | totBytesCover | eventNotScheduled | notBeforeNext | chunkSizeNonzero
  -- base address registers
  | lowerBar
  -- packet queue
  | waitingOnRetry | notWaitingOnRetry | deferredPacketReady
  -- event queue
  | eventOnQueue | notInPast
  -- memories
  | inRange | notWrite | notFromCache | notInstFetch | hasContextId | extraDataValid
  | byteEnableSize | atomicOpFunctor
  -- miss status holding registers
  | notHardPF | inService | notInService | fromCPU | fromSnoop | notFromSnoop | downstreamPending
  | notDownstreamPending | targetsEmpty | targetsReset | notNeedsWritable | matchBlockAddr
  | notCacheResponding | notResponderHadWritable | freeListNonempty | noTargets | readyTimePassed
  -- caches
  | portBlocked | portNotBlocked | sendSucceeded | requestInTable | requestType
  -- compressors
  | codeFound | dictionaryHasRoom
  -- memory checker
  | clusterIncomplete | clusterFilledInOrder | clusterReopenedInTime | writeOutstanding
  | transactionsNonempty | observationBeforeStart | clustersOverlapRead | noObservation
  -- bridge and simple memory
  | responseSpace | requestSpace | memoryBusy | packetQueueNonempty | awaitingRetry
  -- address mapper
  | senderStateNonNull
  -- mesh routing
  | meshNonempty | hopsLeft | inportDirn
  -- message buffer
  | popNotLater | bufferReady | arrivalNotPast | notDequeuedEarly | withinMaxSize | hasStalled
  | stallMapSize | lineAddress | delayNonneg | requeuedInTime
  -- register renaming
  | freeRegsNonempty | physRegClass | fixedMapping | archRegInRange | prevInvalid | notPinnedTwice
  -- memory dependence unit
  | memDepsZero | completedInHash | hasStoreBarrier | hasLoadBarrier | memDepsPositive | squashedInHash
  | foundInHash | entryNotSquashed
  -- branch prediction
  | gHistPointer
  -- virtio
  | descriptorIndex | descriptorSize
  -- base library
  | positiveLog | valueNonNull | nodeEmpty | nodeHasValue | notInterleaved
deriving DecidableEq, Repr

inductive Fault
  | panic (msg : String)
  | assertion (a : Assertion)
  | nullPointer
  | endIterator
  | danglingIterator
  | danglingPointer
  | uninitialised
  | badCast
  | outOfBounds
  | undefinedShift
  | divisionByZero
  | endless
deriving DecidableEq, Repr

/-! ## CXL.mem -/

/-- mirrors mem/cxl/cxl_packet.hh:70-73 -/
inductive CxlReqType | m2sReq | m2sRwD | m2sBIRsp | s2mNDR | s2mDRS | s2mBISnp
deriving DecidableEq, Repr

inductive MetaFiled | meta0State | noOp
deriving DecidableEq, Repr

inductive MetaValue | invalied | any | shared
deriving DecidableEq, Repr

inductive M2SReqOpCode
  | memInv | memRd | memRdData | memRdFwd | memWrFwd | reserved1 | reserved2 | reserved3
  | memSpecRd | memInvNT | memClnEvct
deriving DecidableEq, Repr

inductive M2SRwDOpCode | memWr | memWrPtl | biConflict
deriving DecidableEq, Repr

inductive M2SSnpType | noOp | snpData | snpCur | snpInv
deriving DecidableEq, Repr

inductive S2MNDROpCode | cmp | cmpS | cmpE | biConflictAck
deriving DecidableEq, Repr

/-- `M2S_Req`. mirrors mem/cxl/cxl_packet.hh:146-196 -/
structure M2SReq where
  memOpcode : M2SReqOpCode
  snpType : M2SSnpType
  metaFiled : MetaFiled
  metaValue : MetaValue
  address : Nat
deriving DecidableEq, Repr

/-- `M2S_RwD`: a request with data. -/
structure M2SRwD where
  memOpcode : M2SRwDOpCode
  snpType : M2SSnpType
  metaFiled : MetaFiled
  metaValue : MetaValue
  address : Nat
deriving DecidableEq, Repr

/-- `S2M_NDR`: a response without data. -/
structure S2MNDR where
  opcode : S2MNDROpCode
  metafiled : MetaFiled
  metavalue : MetaValue
deriving DecidableEq, Repr

/-- `S2M_DRS`: a response with data (`MemData`). -/
structure S2MDRS where
  metafiled : MetaFiled
  metavalue : MetaValue
deriving DecidableEq, Repr

inductive CxlReqBody | m2sReq (m : M2SReq) | m2sRwD (m : M2SRwD) | s2mNDR (m : S2MNDR)
deriving DecidableEq, Repr

/-- `CXL_Req`: the type tag and `last_resp` of the base struct, and the message. -/
structure CxlReq where
  cxlReqType : CxlReqType
  lastResp : Bool := true
  body : CxlReqBody
deriving DecidableEq, Repr

/-- The object `new M2S_Req(...)` yields. -/
def M2SReq.new (m : M2SReq) : CxlReq := { cxlReqType := .m2sReq, body := .m2sReq m }

/-- The object `new M2S_RwD(...)` yields. -/
def M2SRwD.new (m : M2SRwD) : CxlReq := { cxlReqType := .m2sRwD, body := .m2sRwD m }

/-- `(M2S_Req *)(cxl_req)`: reading the fields is defined only on an `M2S_Req`. -/
def CxlReq.toM2SReq (c : CxlReq) : Except Fault M2SReq :=
  match c.body with
  | .m2sReq m => .ok m
  | _ => .error .badCast

def CxlReq.toM2SRwD (c : CxlReq) : Except Fault M2SRwD :=
  match c.body with
  | .m2sRwD m => .ok m
  | _ => .error .badCast

def CxlReq.toS2MNDR (c : CxlReq) : Except Fault S2MNDR :=
  match c.body with
  | .s2mNDR m => .ok m
  | _ => .error .badCast

/-! ## CXL.cache -/

/-- mirrors mem/cxl/cxl_cache_packet.hh:69-72 -/
inductive CxlCacheType | d2hReq | d2hResp | d2hData | h2dReq | h2dResp | h2dData
deriving DecidableEq, Repr

inductive D2HReqOpCode
  | rdCurr | rdOwn | rdShared | rdAny | rdOwnNoData | itoMWr | wrCur | clFlush | cleanEvict
  | dirtyEvict | cleanEvictNoData | woWrInv | woWrInvF | wrInv | cacheFlushed
deriving DecidableEq, Repr

inductive D2HRespOpCode
  | rspIHitI | rspVHitV | rspIHitSE | rspSHitSE | rspSFwdM | rspIFwdM | rspVFwdV
deriving DecidableEq, Repr

inductive H2DReqOpCode | snpData | snpInv | snpCur
deriving DecidableEq, Repr

inductive H2DRespOpCode
  | writePull | go | goWritePull | extCmp | goWritePullDrop | reserved | fastGoWritePull
  | goErrWritePull
deriving DecidableEq, Repr

inductive RspDataEncoding | invalid | shared | exclusive | modified | error
deriving DecidableEq, Repr

inductive CxlCacheBody
  | d2hReq (opcode : D2HReqOpCode) (address : Nat)
  | d2hResp (opcode : D2HRespOpCode)
  | h2dReq (opcode : H2DReqOpCode) (address : Nat)
  | h2dResp (opcode : H2DRespOpCode) (rspData : RspDataEncoding)
  | data
deriving DecidableEq, Repr

/-- `CXL_Cache`: the base struct's fields, and the message. -/
structure CxlCache where
  cxlCacheType : CxlCacheType
  lastData : Bool := true
  body : CxlCacheBody
deriving DecidableEq, Repr

/-- The virtual `getAddr()`: requests answer their address, everything else 0. -/
def CxlCache.getAddr (c : CxlCache) : Nat :=
  match c.body with
  | .d2hReq _ a => a
  | .h2dReq _ a => a
  | _ => 0

/-- `((D2H_Req *) cxl_cache)->Opcode`. -/
def CxlCache.d2hOpcode (c : CxlCache) : Except Fault D2HReqOpCode :=
  match c.body with
  | .d2hReq op _ => .ok op
  | _ => .error .badCast

def d2hReq (op : D2HReqOpCode) (a : Nat) : CxlCache :=
  { cxlCacheType := .d2hReq, body := .d2hReq op a }
def d2hResp (op : D2HRespOpCode) : CxlCache := { cxlCacheType := .d2hResp, body := .d2hResp op }
def h2dReq (op : H2DReqOpCode) (a : Nat) : CxlCache :=
  { cxlCacheType := .h2dReq, body := .h2dReq op a }
def h2dResp (op : H2DRespOpCode) (d : RspDataEncoding) : CxlCache :=
  { cxlCacheType := .h2dResp, body := .h2dResp op d }
def h2dData : CxlCache := { cxlCacheType := .h2dData, body := .data }

/-! ## Requests and packets -/

/-- The slave ports of a `PciBridge`, by `slaveID` 0 to 3: the upstream port and
the three ports that take DMA requests from downstream. -/
inductive SlavePort | slave | dma1 | dma2 | dma3
deriving DecidableEq, Repr

/-- The CXL fields of a `Request`; a null pointer is `none`. `oldState` and
`newState` are the snooped block's state bits, `'?'` (63) until a snoop hits.
`pciBridgeSlaveID` is the entry of `pciBridgeSlaveIDs` for the bridge at hand,
which writes it before it reads it. The last four are flags of the request that
the crossbars read and nobody changes.
mirrors request.hh:114-141,1055,1118-1119,1162 -/
structure Request where
  cxlPacketType : CXLPacketType := .defaultPacket
  cxlReq : Option CxlReq := none
  cxlCache : Option CxlCache := none
  cxlDataAtomic : Option S2MDRS := none
  cxlDataAtomic2 : Option CxlCache := none
  oldState : Nat := 63
  newState : Nat := 63
  pciBridgeSlaveID : SlavePort := .slave
  isUncacheable : Bool := false
  isCacheMaintenance : Bool := false
  isToPOU : Bool := false
  isToPOC : Bool := false
deriving DecidableEq, Repr

/-- A packet: its request, command and address, and the snoop flags that the
modelled functions read. `id` is not in the source and no modelled function
reads it: it tells apart the times one component is handed a packet, since the
same packet may pass it more than once. The source's `id`, which a cache clean
request shares with the write it causes, is `packetId`. -/
structure Packet where
  id : Nat := 0
  req : ReqId
  cmd : MemCmd
  addr : Nat
  hasSharers : Bool := false
  cacheResponding : Bool := false
  responderHadWritable : Bool := false
  blockCached : Bool := false
  packetId : Nat := 0
  isSecure : Bool := false
  expressSnoop : Bool := false
  satisfied : Bool := false
deriving DecidableEq, Repr

/-- mirrors mem/packet.hh:1120-1130 -/
def Packet.makeResponse (p : Packet) : Except Fault Packet :=
  if p.cmd.needsResponse = false then .error (.assertion .needsResponse)
  else if p.cmd.isRequest = false then .error (.assertion .isRequest)
  else .ok { p with cmd := p.cmd.responseCommand, expressSnoop := false }

def Packet.needsResponse (p : Packet) : Bool := p.cmd.needsResponse

/-- mirrors mem/packet.hh:1494-1497 -/
def Packet.isCleanEviction (p : Packet) : Bool := p.cmd = .cleanEvict || p.cmd = .writebackClean

/-- `p->f` for a pointer field. -/
def deref {α : Type} : Option α → Except Fault α
  | some a => .ok a
  | none => .error .nullPointer

@[simp] theorem deref_some {α : Type} (a : α) : deref (some a) = .ok a := rfl
@[simp] theorem deref_none {α : Type} : deref (none : Option α) = .error .nullPointer := rfl

/-! ## The address map of the CXL system -/

/-- CXL device registers, `[0x15000000, 0x15040000)`. -/
def inCxlDev (a : Nat) : Bool := 0x15000000 ≤ a && a < 0x15040000

/-- CXL memory, `[0x80000000, 0xA0000000)`. -/
def inCxlMem (a : Nat) : Bool := 0x80000000 ≤ a && a < 0xA0000000

/-- Host memory, from `0xA0000000`. -/
def inHostMem (a : Nat) : Bool := 0xA0000000 ≤ a

end Gem5Cxl.L1
