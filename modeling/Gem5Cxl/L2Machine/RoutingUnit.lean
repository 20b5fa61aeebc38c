import Gem5Cxl.Core.Lts
import Gem5Cxl.L1Message.Packet

/-!
# The routing unit of a mesh router (`mem/ruby/network/garnet/RoutingUnit.cc`)

Router `r` is in column `r % cols` and row `r / cols`. A port leads to the next router in its
direction, if there is one, and a flit comes in there by the opposite port.
-/
namespace Gem5Cxl.L2.RoutingUnit

open Core L1

/-- `ni` is `"Local"`. -/
inductive PortDirection | ni | north | south | east | west
deriving DecidableEq

def check (p : Prop) [Decidable p] (a : Assertion) : Except Fault Unit :=
  if p then .ok () else .error (.assertion a)

/-- mirrors RoutingUnit.cc:207-261 -/
def outportComputeXY (num_rows num_cols my_id dest_id : Nat) (inport_dirn : PortDirection) :
    Except Fault PortDirection := do
  check (0 < num_rows ∧ 0 < num_cols) .meshNonempty
  let my_x := my_id % num_cols
  let my_y := my_id / num_cols
  let dest_x := dest_id % num_cols
  let dest_y := dest_id / num_cols
  let x_hops := ((dest_x : Int) - my_x).natAbs
  let y_hops := ((dest_y : Int) - my_y).natAbs
  check (¬ (x_hops = 0 ∧ y_hops = 0)) .hopsLeft
  if 0 < x_hops then
    if my_x ≤ dest_x then
      check (inport_dirn = .ni ∨ inport_dirn = .west) .inportDirn
      return .east
    else
      check (inport_dirn = .ni ∨ inport_dirn = .east) .inportDirn
      return .west
  else if 0 < y_hops then
    if my_y ≤ dest_y then
      check (inport_dirn ≠ .north) .inportDirn
      return .north
    else
      check (inport_dirn ≠ .south) .inportDirn
      return .south
  else .error (.panic "x_hops == y_hops == 0")

/-- With `XY_`; at its destination a flit takes the local port that the routing table has for it.
mirrors RoutingUnit.cc:168-202 -/
def outportCompute (num_rows num_cols my_id dest_id : Nat) (inport_dirn : PortDirection) :
    Except Fault PortDirection :=
  if dest_id = my_id then .ok .ni else outportComputeXY num_rows num_cols my_id dest_id inport_dirn

/-- The router that a port leads to, and the direction of the flit's inport there. -/
def link (rows cols r : Nat) : PortDirection → Option (Nat × PortDirection)
  | .ni => none
  | .east => if r % cols + 1 < cols then some (r + 1, .west) else none
  | .west => if 0 < r % cols then some (r - 1, .east) else none
  | .north => if r / cols + 1 < rows then some (r + cols, .south) else none
  | .south => if 0 < r / cols then some (r - cols, .north) else none

end Gem5Cxl.L2.RoutingUnit
