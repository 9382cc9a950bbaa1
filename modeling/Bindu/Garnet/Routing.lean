/-
`RoutingUnit`: from the destination of a packet to an output port.

Table routing looks at the routing table entries and link weights that `addOutPort` stored
and, among the ports of least weight, at the free virtual channels behind them. The other
functions compute a direction from mesh coordinates and translate it into a port number
with `m_outports_dirn2idx`. That is a `std::map` read with `operator[]`, so a direction the
router has no port for yields 0.

Sources: `garnet2.0/RoutingUnit.cc`, `GarnetNetwork::get_RouterInDirn`,
`Router::get_numFreeVC`, `InputUnit::get_numFreeVC`, `OutputUnit::getNumFreeVCs`.
-/
import Bindu.Garnet.State

namespace Bindu.Garnet

variable (net : GarnetNetwork) (s : NetState)

/-! ## Table routing -/

/-- `OutputUnit::is_vc_idle` of the output unit that feeds link `l`. -/
def is_vc_idle (l vc : ℕ) : Bool := ((s.chan l).m_outvc_state vc).isInState .IDLE_ s.now

/-- The virtual channels of a virtual network. -/
def vcsOf (vnet : ℕ) : List ℕ :=
  (List.range net.m_vcs_per_vnet).map (fun offset => vnet * net.m_vcs_per_vnet + offset)

/-- `OutputUnit::getNumFreeVCs`. -/
def getNumFreeVCs (l vnet : ℕ) : ℕ := (vcsOf net vnet).countP (is_vc_idle s l)

/-- `m_routing_table[link]` of router `r`. -/
def m_routing_table (r link : ℕ) : NetDest :=
  match (net.m_output_unit r)[link]? with
  | some p => p.m_routing_table
  | none => ∅

/-- `m_weight_table[link]` of router `r`. -/
def m_weight_table (r link : ℕ) : ℕ :=
  match (net.m_output_unit r)[link]? with
  | some p => p.m_weight_table
  | none => 0

/-- The output links whose table entry meets the destination. -/
def matchingLinks (r : ℕ) (msg_destination : NetDest) : List ℕ :=
  (List.range (net.num_outports r)).filter
    (fun link => msg_destination.intersectionIsNotEmpty (m_routing_table net r link))

/-- The first loop of `lookupRoutingTable`. -/
def min_weight (r : ℕ) (msg_destination : NetDest) : ℕ :=
  (matchingLinks net r msg_destination).foldl
    (fun w link => if m_weight_table net r link ≤ w then m_weight_table net r link else w)
    INFINITE_

def output_link_candidates (r : ℕ) (msg_destination : NetDest) : List ℕ :=
  (matchingLinks net r msg_destination).filter
    (fun link => m_weight_table net r link = min_weight net r msg_destination)

/-- The last loop of `lookupRoutingTable`: the first candidate with the most free virtual
channels. -/
def pickMostFree (free : ℕ → ℕ) (candidates : List ℕ) : ℤ × Option ℕ :=
  candidates.foldl
    (fun st link => if (free link : ℤ) > st.1 then ((free link : ℤ), some link) else st)
    (-1, none)

def lookupRoutingTable (r vnet : ℕ) (msg_destination : NetDest) : Except Fault ℕ :=
  let candidates := output_link_candidates net r msg_destination
  match (pickMostFree (fun link => getNumFreeVCs net s (net.outLink r link) vnet) candidates).2 with
  | some link => pure link
  | none => throw .no_route

/-! ## Directions -/

/-- The port number stored last under a direction. -/
def lastIndexOf (dirn : PortDirection) (dirns : List PortDirection) : Option ℕ :=
  dirns.zipIdx.foldl (fun last p => if p.1 = dirn then some p.2 else last) none

/-- `m_outports_dirn2idx[dirn]`. -/
def m_outports_dirn2idx (r : ℕ) (dirn : PortDirection) : ℕ :=
  (lastIndexOf dirn ((net.m_output_unit r).map OutPort.m_direction)).getD 0

/-- `m_inports_dirn2idx[dirn]`. -/
def m_inports_dirn2idx (r : ℕ) (dirn : PortDirection) : ℕ :=
  (lastIndexOf dirn ((net.m_input_unit r).map InPort.m_direction)).getD 0

/-- What the direction based functions compute first. -/
structure Hops where
  x_hops : ℕ
  y_hops : ℕ
  x_dirn : Bool
  y_dirn : Bool
  deriving DecidableEq

/-- The common first part of the direction based functions, for router `my_id`. -/
def hopsTo (my_id : ℕ) (route : RouteInfo) : Except Fault Hops := do
  let num_rows := net.m_num_rows
  let num_cols := net.m_num_cols
  assert (0 < num_rows && 0 < num_cols) .mesh_shape
  let my_x := (my_id : ℤ) % num_cols
  let my_y := (my_id : ℤ) / num_cols
  let dest_x := (route.dest_router : ℤ) % num_cols
  let dest_y := (route.dest_router : ℤ) / num_cols
  let x_hops := (dest_x - my_x).natAbs
  let y_hops := (dest_y - my_y).natAbs
  assert (!(x_hops = 0 && y_hops = 0)) .same_router
  pure ⟨x_hops, y_hops, dest_x ≥ my_x, dest_y ≥ my_y⟩

/-- The direction `outportComputeXY` chooses. Its last branch, `panic`, is behind the
assertion that the two hop counts are not both zero. -/
def Hops.dirnXY (h : Hops) : PortDirection :=
  if 0 < h.x_hops then
    if h.x_dirn then .East else .West
  else
    if h.y_dirn then .North else .South

def outportComputeXY (my_id : ℕ) (route : RouteInfo) : Except Fault (ℕ × NetState) := do
  let h ← hopsTo net my_id route
  pure (m_outports_dirn2idx net my_id h.dirnXY, s)

/-- `rand ? a : b` with `rand = random() % 2`. -/
def pick (rand : ℕ) (a b : PortDirection) : PortDirection := if rand % 2 ≠ 0 then a else b

def outportComputeRandom (my_id : ℕ) (route : RouteInfo) : Except Fault (ℕ × NetState) := do
  let h ← hopsTo net my_id route
  if h.x_hops = 0 then
    pure (m_outports_dirn2idx net my_id (if h.y_dirn then .North else .South), s)
  else if h.y_hops = 0 then
    pure (m_outports_dirn2idx net my_id (if h.x_dirn then .East else .West), s)
  else
    let (rand, s) ← s.random
    let outport_dirn :=
      if h.x_dirn && h.y_dirn then pick rand .East .North
      else if !h.x_dirn && h.y_dirn then pick rand .West .North
      else if !h.x_dirn && !h.y_dirn then pick rand .West .South
      else pick rand .East .South
    pure (m_outports_dirn2idx net my_id outport_dirn, s)

/-- The number `get_RouterInDirn` computes, after its border checks, which are loops in the
source. -/
def downstreamId (outport_dir : PortDirection) (my_id : ℕ) : Except Fault ℤ :=
  let num_cols := net.m_num_cols
  let n := net.num_routers
  match outport_dir with
  | .East => do
      -- for (k = num_cols - 1; k < n; k += num_cols)
      assert ((List.range n).all (fun j =>
        let k := num_cols - 1 + j * num_cols
        !(k < n && (my_id : ℤ) = k))) .router_in_dirn
      pure ((my_id : ℤ) + 1)
  | .West => do
      -- for (k = 0; k < n; k += num_cols)
      assert ((List.range n).all (fun j =>
        let k := j * num_cols
        !(k < n && (my_id : ℤ) = k))) .router_in_dirn
      pure ((my_id : ℤ) - 1)
  | .North => do
      -- for (k = (num_cols - 1) * num_cols; k < n; k += 1)
      assert (!((num_cols - 1) * num_cols ≤ my_id && my_id < n)) .router_in_dirn
      pure ((my_id : ℤ) + num_cols)
  | .South => do
      -- for (k = 0; k < num_cols; k += 1)
      assert (!((my_id : ℤ) < num_cols)) .router_in_dirn
      pure ((my_id : ℤ) - num_cols)
  | _ => throw .router_in_dirn

/-- `GarnetNetwork::get_RouterInDirn`. -/
def get_RouterInDirn (outport_dir : PortDirection) (my_id : ℕ) : Except Fault ℕ := do
  let downstream_id ← downstreamId net outport_dir my_id
  assert (!(downstream_id < 0 || downstream_id ≥ net.num_routers)) .router_in_dirn
  pure downstream_id.toNat

/-- `Router::get_numFreeVC` of router `r`, with `InputUnit::get_numFreeVC`. -/
def get_numFreeVC (r : ℕ) (dirn_ : PortDirection) : Except Fault ℕ := do
  assert (dirn_ ≠ .Local) .num_free_vc
  let inport_id := m_inports_dirn2idx net r dirn_
  assert (inport_id < net.num_inports r) .num_free_vc
  assert (dirn_ = net.getInportDirection r inport_id) .num_free_vc
  pure ((List.range net.m_vcs_per_vnet).countP
    (fun vc_ => ((s.chan (net.inLink r inport_id)).m_vcs vc_).isEmpty))

/-- The choice between the horizontal direction `a` and the vertical direction `b`, whose
downstream routers are entered from `a'` and `b'`: the one with more free virtual channels,
and a random one if they have the same number. -/
def moreFree (my_id rand : ℕ) (a a' b b' : PortDirection) : Except Fault PortDirection := do
  let router_a ← get_RouterInDirn net a my_id
  let router_b ← get_RouterInDirn net b my_id
  let freeVC_a ← get_numFreeVC net s router_a a'
  let freeVC_b ← get_numFreeVC net s router_b b'
  pure (if freeVC_a > freeVC_b then a else if freeVC_b > freeVC_a then b else pick rand a b)

/-- The choice of `outportComputeAdaptRand` in the four quadrants. -/
def quadrantDirn (my_id rand : ℕ) (h : Hops) : Except Fault PortDirection :=
  if h.x_dirn && h.y_dirn then moreFree net s my_id rand .East .West .North .South
  else if !h.x_dirn && h.y_dirn then moreFree net s my_id rand .West .East .North .South
  else if !h.x_dirn && !h.y_dirn then moreFree net s my_id rand .West .East .South .North
  else moreFree net s my_id rand .East .West .South .North

def outportComputeAdaptRand (my_id : ℕ) (route : RouteInfo) : Except Fault (ℕ × NetState) := do
  let h ← hopsTo net my_id route
  if h.x_hops = 0 then
    pure (m_outports_dirn2idx net my_id (if h.y_dirn then .North else .South), s)
  else if h.y_hops = 0 then
    pure (m_outports_dirn2idx net my_id (if h.x_dirn then .East else .West), s)
  else
    let (rand, s) ← s.random
    let outport_dirn ← quadrantDirn net s my_id rand h
    pure (m_outports_dirn2idx net my_id outport_dirn, s)

/-- The direction `outportComputeWestFirst` chooses. -/
def Hops.dirnWestFirst (h : Hops) (rand : ℕ) : PortDirection :=
  if h.x_hops = 0 then
    if h.y_dirn then .North else .South
  else if h.y_hops = 0 then
    if h.x_dirn then .East else .West
  else if !h.x_dirn then .West
  else if h.y_dirn then pick rand .East .North
  else pick rand .East .South

def outportComputeWestFirst (my_id : ℕ) (route : RouteInfo) : Except Fault (ℕ × NetState) := do
  let h ← hopsTo net my_id route
  let (rand, s) ← s.random
  pure (m_outports_dirn2idx net my_id (h.dirnWestFirst rand), s)

/-- The direction `outportComputeAdaptWestFirst` chooses. -/
def adaptWestFirstDirn (my_id rand : ℕ) (h : Hops) : Except Fault PortDirection :=
  if h.x_hops = 0 then
    pure (if h.y_dirn then .North else .South)
  else if h.y_hops = 0 then
    pure (if h.x_dirn then .East else .West)
  else if !h.x_dirn then
    pure .West
  else if h.y_dirn then
    moreFree net s my_id rand .East .West .North .South
  else
    moreFree net s my_id rand .East .West .South .North

def outportComputeAdaptWestFirst (my_id : ℕ) (route : RouteInfo) :
    Except Fault (ℕ × NetState) := do
  let h ← hopsTo net my_id route
  let (rand, s) ← s.random
  let outport_dirn ← adaptWestFirstDirn net s my_id rand h
  pure (m_outports_dirn2idx net my_id outport_dirn, s)

/-- `RoutingUnit::outportCompute` of router `r`. No modelled function reads the input port
it is given. -/
def outportCompute (r : ℕ) (route : RouteInfo) : Except Fault (ℕ × NetState) :=
  if route.dest_router = r then do
    pure (← lookupRoutingTable net s r route.vnet route.net_dest, s)
  else
    match net.m_routing_algorithm with
    | .TABLE_ => do pure (← lookupRoutingTable net s r route.vnet route.net_dest, s)
    | .XY_ => outportComputeXY net s r route
    | .RANDOM_ => outportComputeRandom net s r route
    | .ADAPT_RAND_ => outportComputeAdaptRand net s r route
    | .WestFirst_ => outportComputeWestFirst net s r route
    | .ADAPT_WestFirst_ => outportComputeAdaptWestFirst net s r route
    | .CUSTOM_ => throw .custom_routing

end Bindu.Garnet
