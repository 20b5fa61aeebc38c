import Gem5Cxl.Core.Lts
import Gem5Cxl.L1Message.Packet

/-!
# The Ruby sequencer (`mem/ruby/system/Sequencer.cc`)

Requests to a line that come while a Ruby request for it is outstanding wait in the
line's list, and the callback of the Ruby request serves what it can of them.

A callback is re-entered: when a request has been hit, `ruby_hit_callback` lets the
ports that were refused send again (`RubyPort::trySendRetries`), and during cache warm-up
the recorder makes its next request. Such requests are made before the one that was hit
leaves the list, so one to the same line is served by the loop that it interrupts.

Loads, instruction fetches, stores, swaps and atomics are modelled: none of them blocks a
line. Packets lie within a line and swaps are not masked.
-/
namespace Gem5Cxl.L2.Sequencer

open Core L1

inductive RubyRequestType
  | ld | ifetch | st | rmwRead | atomicReturn | atomicNoReturn
deriving DecidableEq, Repr

namespace RubyRequestType

def isRead (t : RubyRequestType) : Bool := t = .ld || t = .ifetch

def isAtomic (t : RubyRequestType) : Bool := t = .atomicReturn || t = .atomicNoReturn

/-- The types whose packets are given the bytes of the line as it is. -/
def gets (t : RubyRequestType) : Bool := t.isRead || t = .rmwRead || t = .atomicReturn

end RubyRequestType

/-- What a packet asks for, with the functor of an atomic. -/
inductive Access
  | read (isInstFetch isReadModifyWrite : Bool)
  | write
  | swap
  | atomic (isReturn : Bool) (op : List UInt8 → List UInt8)

/-- `data` has `none` for a byte that the mask leaves out. -/
structure SequencerRequest where
  addr : Nat
  size : Nat
  access : Access
  data : List (Option UInt8) := []
  type : RubyRequestType := .ld

abbrev DataBlock := Nat → UInt8

def DataBlock.getData (d : DataBlock) (offset len : Nat) : List UInt8 :=
  (List.range len).map fun i => d (offset + i)

def DataBlock.setData (d : DataBlock) (offset : Nat) (bytes : List (Option UInt8)) : DataBlock :=
  fun i => if i < offset then d i else (bytes[i - offset]?.join).getD (d i)

/-- A request that was hit, with the data its packet was given. -/
structure Hit where
  req : SequencerRequest
  data : Option (List UInt8)

inductive Callback
  | writeCallback (noCoales : Bool)
  | readCallback
  | atomicCallback

/-- The types that the callback asserts of the request for which Ruby was asked. -/
def Callback.isFor : Callback → RubyRequestType → Bool
  | .writeCallback _, t => !t.isRead && !t.isAtomic
  | .readCallback, t => t.isRead
  | .atomicCallback, t => t.isAtomic

/-- The types of the requests that are not served with it. -/
def Callback.reissues : Callback → RubyRequestType → Bool
  | .writeCallback noCoales, t => noCoales || t.isAtomic
  | .readCallback, t => !t.isRead
  | .atomicCallback, _ => true

/-- The data given to the packet, and the line after it. mirrors Sequencer.cc:659-762 -/
def hitCallback (blockSize : Nat) (warmup : Bool) (r : SequencerRequest) (d : DataBlock) :
    Option (List UInt8) × DataBlock :=
  let offset := r.addr % blockSize
  let old := d.getData offset r.size
  if warmup then (none, d.setData offset r.data)
  else if r.type.gets then (some old, d)
  else match r.access with
    | .swap => (some old, d.setData offset r.data)
    | .atomic _ op => (some old, d.setData offset ((op old).map some))
    | _ => (none, d.setData offset r.data)

/-- A callback, with the data it came with and what it hit. -/
structure Served where
  warmup : Bool
  data : DataBlock
  hits : List Hit

/-- `requests` has the requests of the table in the order in which they were made, and
`chi` says that gem5 was built for the CHI protocol. The accepted requests, the callbacks
and the number of Ruby requests outstanding for each line are recorded. -/
structure Sys where
  maxOutstandingRequests : Int
  blockSize : Nat
  chi : Bool
  requests : List SequencerRequest := []
  outstandingCount : Int := 0
  made : List SequencerRequest := []
  log : List Served := []
  ruby : Nat → Nat := fun _ => 0

def makeLineAddress (blockSize addr : Nat) : Nat := addr - addr % blockSize

def line (blockSize a : Nat) (l : List SequencerRequest) : List SequencerRequest :=
  l.filter fun r => makeLineAddress blockSize r.addr = a

namespace Sys

variable (s : Sys)

def list (a : Nat) : List SequencerRequest := line s.blockSize a s.requests

/-- mirrors Sequencer.cc:831-921 -/
def requestType : Access → RubyRequestType
  | .atomic isReturn _ =>
    if !s.chi then .st else if isReturn then .atomicReturn else .atomicNoReturn
  | .write | .swap => .st
  | .read isInstFetch isReadModifyWrite =>
    if isInstFetch then .ifetch else if isReadModifyWrite then .rmwRead else .ld

def issueRequest (a : Nat) : Sys := { s with ruby := Function.update s.ruby a (s.ruby a + 1) }

/-- mirrors Sequencer.cc:303-366 -/
def insertRequest (r : SequencerRequest) : Sys :=
  { s with
    requests := s.requests ++ [r]
    outstandingCount := s.outstandingCount + 1
    made := s.made ++ [r] }

/-- mirrors Sequencer.cc:821-945 -/
def makeRequest (r : SequencerRequest) : Sys :=
  if s.maxOutstandingRequests ≤ s.outstandingCount then s
  else
    let a := makeLineAddress s.blockSize r.addr
    let inserted := s.insertRequest { r with type := s.requestType r.access }
    if (s.list a).isEmpty then inserted.issueRequest a else inserted

def markRemoved : Sys := { s with outstandingCount := s.outstandingCount - 1 }

/-- `seq_req_list.pop_front()` -/
def popFront (a : Nat) : Sys :=
  { s with requests := s.requests.eraseP fun r => makeLineAddress s.blockSize r.addr = a }

/-- The loop of the callbacks. `retries` has the requests that are made while the first,
the second, … request is hit. mirrors Sequencer.cc:466-543 (`writeCallback`),
569-595 (`readCallback`) and 622-651 (`atomicCallback`) -/
def serve (warmup : Bool) (c : Callback) (a : Nat) : Nat → Bool → List (List SequencerRequest) →
    DataBlock → Sys → Except Fault (List Hit × Sys)
  | 0, _, _, _, s => .ok ([], s)
  | fuel + 1, rubyRequest, retries, d, s =>
    match s.list a with
    | [] => .ok ([], s)
    | r :: _ =>
      if rubyRequest && !c.isFor r.type then .error (.assertion .requestType)
      else if !rubyRequest && c.reissues r.type then .ok ([], s.issueRequest a)
      else do
        let (data, d) := hitCallback s.blockSize warmup r d
        let s := (retries.headD []).foldl makeRequest s.markRemoved
        let (hits, s) ← serve warmup c a fuel false retries.tail d (s.popFront a)
        .ok (⟨r, data⟩ :: hits, s)

/-- Each pass of the loop takes a request out of the list, and only retries add to it.
mirrors Sequencer.cc:447-657 -/
def callback (warmup : Bool) (c : Callback) (address : Nat) (d : DataBlock)
    (retries : List (List SequencerRequest)) : Except Fault Sys :=
  if address ≠ makeLineAddress s.blockSize address then .error (.assertion .lineAddress)
  else if (s.list address).isEmpty then .error (.assertion .requestInTable)
  else do
    let passes := (s.list address).length + retries.flatten.length
    let answered := Function.update s.ruby address (s.ruby address - 1)
    let (hits, s) ← serve warmup c address passes true retries d { s with ruby := answered }
    .ok { s with log := s.log ++ [⟨warmup, d, hits⟩] }

end Sys

end Gem5Cxl.L2.Sequencer
