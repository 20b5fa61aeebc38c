import Gem5Cxl.L1Message.Packet

/-!
# The address mapper (`mem/addr_mapper.cc`)

The mapper replaces the address of a request and keeps the old one in a sender state on
the packet, from which it is put back into the response. A peer gets the packet as the
mapper has changed it; it takes it, or refuses it and leaves it as it is.
-/
namespace Gem5Cxl.L2.AddrMapper

open L1

/-- A sender state, of a mapper (`AddrMapperSenderState`) or of another component. -/
inductive SenderState
  | mapper (origAddr : Nat)
  | other (id : Nat)
deriving DecidableEq

/-- A packet with its sender states, the last one pushed first. -/
structure Tagged where
  pkt : Packet
  senderState : List SenderState
deriving DecidableEq

namespace Tagged

def setAddr (p : Tagged) (addr : Nat) : Tagged := { p with pkt := { p.pkt with addr } }

/-- mirrors mem/packet.cc:333-339 -/
def pushSenderState (p : Tagged) (s : SenderState) : Tagged :=
  { p with senderState := s :: p.senderState }

/-- mirrors mem/packet.cc:341-349 -/
def popSenderState (p : Tagged) : Except Fault Tagged :=
  match p.senderState with
  | [] => .error (.assertion .senderStateNonNull)
  | _ :: predecessor => .ok { p with senderState := predecessor }

end Tagged

/-- mirrors addr_mapper.cc:133-160 -/
def recvTimingReq (remapAddr : Nat → Nat) (sendTimingReq : Tagged → Bool) (p : Tagged) :
    Except Fault (Bool × Tagged) := do
  let origAddr := p.pkt.addr
  let needsResponse := p.pkt.needsResponse
  let p := if needsResponse && !p.pkt.cacheResponding then p.pushSenderState (.mapper origAddr) else p
  let p := p.setAddr (remapAddr origAddr)
  if sendTimingReq p then return (true, p)
  let p := p.setAddr origAddr
  if needsResponse then return (false, ← p.popSenderState)
  return (false, p)

/-- mirrors addr_mapper.cc:162-192 -/
def recvTimingResp (sendTimingResp : Tagged → Bool) (p : Tagged) : Except Fault (Bool × Tagged) :=
  match p.senderState with
  | .mapper origAddr :: predecessor =>
    let sent := { p with senderState := predecessor }.setAddr origAddr
    .ok (if sendTimingResp sent then (true, sent) else (false, p))
  | _ => .error (.panic "got a response without sender state")

end Gem5Cxl.L2.AddrMapper
