/-
The state of a running network.

What the source keeps in the objects at the two ends of a link (an `OutputUnit` or the
sending half of a `NetworkInterface`, the `NetworkLink`, the `InputUnit` or the receiving
half of a `NetworkInterface`, and the `CreditLink` back) is one record here, a `Channel`,
indexed by the number of the link. Every output unit feeds exactly one link and every
input unit reads exactly one, so nothing is lost, and the bookkeeping of credits, which is
about these objects together, is about one record.

Sources: the data members of `GarnetNetwork`, `Router`, `InputUnit`, `OutputUnit`,
`SwitchAllocator`, `CrossbarSwitch`, `NetworkLink` and `NetworkInterface`, and
`mem/ruby/common/Consumer.cc`.
-/
import Bindu.Garnet.MessageBuffer
import Bindu.Garnet.Topology

namespace Bindu.Garnet

/-! ## Configuration -/

/-- The parameters of `GarnetNetwork` and its routers. The last fields are checks made when
the objects are constructed (`Network::Network`, `OutVcState::OutVcState`); with no virtual
channel the constructor of `InputUnit` divides by zero. -/
structure Params where
  num_rows : ℤ
  m_virtual_networks : ℕ
  m_vcs_per_vnet : ℕ
  m_buffers_per_data_vc : ℕ
  m_buffers_per_ctrl_vc : ℕ
  m_vnet_type : ℕ → VNET_type
  m_ordered : ℕ → Bool
  m_routing_algorithm : RoutingAlgorithm
  m_enable_bn : ℕ
  m_num_bubble : ℕ
  m_intra_bubble_period : ℕ
  m_inter_bubble_period : ℕ
  rand_bb : ℕ
  m_scheme : Scheme
  sim_type : ℕ
  warmup_cycles : ℕ
  /-- `Router::m_latency` -/
  m_latency : ℕ → ℕ
  /-- the initial `Router::mrkd_flt_` -/
  marked_flit : ℕ → ℤ
  /-- `RubySystem::getRandomization()` -/
  randomization : Bool
  /-- `RubySystem::getWarmupEnabled()` -/
  warmup_enabled : Bool
  vnets_pos : 0 < m_virtual_networks
  vcs_pos : 0 < m_vcs_per_vnet
  data_pos : 1 ≤ m_buffers_per_data_vc
  ctrl_pos : 1 ≤ m_buffers_per_ctrl_vc

/-- The default options of `configs/network/Network.py` for a network with `mesh_rows` rows,
with the virtual networks of `Garnet_standalone.py` (two for control, one for data) and no
marked flits. -/
def Params.default (mesh_rows : ℤ) : Params where
  num_rows := mesh_rows
  m_virtual_networks := 3
  m_vcs_per_vnet := 4
  m_buffers_per_data_vc := 4
  m_buffers_per_ctrl_vc := 1
  m_vnet_type := fun vnet => if vnet = 2 then .DATA_VNET_ else .CTRL_VNET_
  m_ordered := fun _ => false
  m_routing_algorithm := .TABLE_
  m_enable_bn := 0
  m_num_bubble := 0
  m_intra_bubble_period := 50
  m_inter_bubble_period := 100
  rand_bb := 0
  m_scheme := .bn
  sim_type := 1
  warmup_cycles := 1000
  m_latency := fun _ => 1
  marked_flit := fun _ => 0
  randomization := false
  warmup_enabled := false
  vnets_pos := by decide
  vcs_pos := by decide
  data_pos := by decide
  ctrl_pos := by decide

/-- A network as `GarnetNetwork::init` leaves it. `shape` is the assertion made there. -/
structure GarnetNetwork extends Params, Wiring where
  num_routers : ℕ
  num_nodes : ℕ
  shape : 0 < num_rows → num_rows * (num_routers / num_rows) = num_routers

namespace GarnetNetwork

variable (net : GarnetNetwork)

def m_num_rows : ℤ := if 0 < net.num_rows then net.num_rows else -1

def m_num_cols : ℤ := if 0 < net.num_rows then net.num_routers / net.num_rows else -1

def m_num_vcs : ℕ := net.m_virtual_networks * net.m_vcs_per_vnet

def get_vnet_type (vc : ℕ) : VNET_type := net.m_vnet_type (vc / net.m_vcs_per_vnet)

def num_inports (r : ℕ) : ℕ := (net.m_input_unit r).length

def num_outports (r : ℕ) : ℕ := (net.m_output_unit r).length

/-- The number of a link that does not exist, for reading past the end of a port list. -/
def noLink : ℕ := net.m_networklinks.length

/-- `m_input_unit[inport]->m_in_link`. -/
def inLink (r inport : ℕ) : ℕ :=
  match (net.m_input_unit r)[inport]? with
  | some p => p.m_in_link
  | none => net.noLink

/-- `m_output_unit[outport]->m_out_link`. -/
def outLink (r outport : ℕ) : ℕ :=
  match (net.m_output_unit r)[outport]? with
  | some p => p.m_out_link
  | none => net.noLink

/-- `Router::getInportDirection`. -/
def getInportDirection (r inport : ℕ) : PortDirection :=
  match (net.m_input_unit r)[inport]? with
  | some p => p.m_direction
  | none => .Unknown

/-- `Router::getOutportDirection`. -/
def getOutportDirection (r outport : ℕ) : PortDirection :=
  match (net.m_output_unit r)[outport]? with
  | some p => p.m_direction
  | none => .Unknown

/-- `m_latency` of a network link and of its credit link. -/
def linkLatency (l : ℕ) : ℕ :=
  match net.m_networklinks[l]? with
  | some link => link.m_latency
  | none => 0

/-- Who receives the flits of a link. -/
def linkConsumer (l : ℕ) : Option Endpoint := net.m_networklinks[l]?.map NetworkLink.link_consumer

/-- Who receives the credits of a link, and sends its flits. -/
def creditConsumer (l : ℕ) : Option Endpoint :=
  net.m_networklinks[l]?.map NetworkLink.credit_consumer

/-- `m_max_credit_count` of an `OutVcState`. -/
def max_credit_count (vc : ℕ) : ℤ :=
  match net.get_vnet_type vc with
  | .DATA_VNET_ => net.m_buffers_per_data_vc
  | .CTRL_VNET_ => net.m_buffers_per_ctrl_vc

theorem max_credit_count_pos (vc : ℕ) : 1 ≤ net.max_credit_count vc := by
  unfold max_credit_count
  split
  · exact_mod_cast net.data_pos
  · exact_mod_cast net.ctrl_pos

end GarnetNetwork

/-- The network of a topology. -/
def Topology.network (T : Topology) (p : Params) (shape : 0 < p.num_rows →
      p.num_rows * (T.m_number_of_switches / p.num_rows) = T.m_number_of_switches) :
    GarnetNetwork :=
  { p, T.createLinks with
    num_routers := T.m_number_of_switches
    num_nodes := T.m_nodes
    shape := shape }

/-! ## Channels -/

/-- The two ends of a link and the link itself, with its credit link. -/
structure Channel where
  /-- `OutputUnit::m_outvc_state`, or `NetworkInterface::m_out_vc_state` -/
  m_outvc_state : ℕ → OutVcState
  /-- `OutputUnit::m_out_buffer`, or `NetworkInterface::outFlitQueue` -/
  m_out_buffer : flitBuffer flit
  /-- `NetworkLink::linkBuffer` -/
  linkBuffer : flitBuffer flit
  /-- `InputUnit::m_vcs` -/
  m_vcs : ℕ → VirtualChannel
  /-- `InputUnit::creditQueue`, or `NetworkInterface::outCreditQueue` -/
  creditQueue : flitBuffer Credit
  /-- `CreditLink::linkBuffer` -/
  creditBuffer : flitBuffer Credit

namespace Channel

def modOutVc (c : Channel) (vc : ℕ) (o : OutVcState) : Channel :=
  { c with m_outvc_state := Function.update c.m_outvc_state vc o }

def modVc (c : Channel) (vc : ℕ) (v : VirtualChannel) : Channel :=
  { c with m_vcs := Function.update c.m_vcs vc v }

end Channel

/-! ## Network interfaces, bubbles and consumers -/

structure NetworkInterface where
  m_vc_allocator : ℕ → ℕ
  m_vc_round_robin : ℕ
  m_ni_out_vcs : ℕ → flitBuffer flit
  m_ni_out_vcs_enqueue_time : ℕ → ℕ
  m_stall_queue : List flit
  m_stall_count : ℕ → ℤ
  inNode_ptr : ℕ → Option MessageBuffer
  outNode_ptr : ℕ → Option MessageBuffer
  vc_busy_counter : ℕ → ℕ

/-- `GarnetNetwork::brownian_bubble`. -/
structure brownian_bubble where
  bubble_id : ℕ
  router_id : ℕ
  inport_id : ℕ
  last_inport_id : ℤ
  inport_dirn : PortDirection
  last_inport_dirn : PortDirection
  last_intra_movement_cycle : ℕ
  last_inter_movement_cycle : ℕ
  sense_inc : Bool
  deriving DecidableEq

/-- An element of the vector after `bubble.resize(m_num_bubble)`. -/
def brownian_bubble.zero : brownian_bubble :=
  ⟨0, 0, 0, 0, .other "", .other "", 0, 0, false⟩

/-- The objects that are woken by events. -/
inductive ConsumerId
  | router (r : ℕ)
  | ni (n : ℕ)
  | networkLink (l : ℕ)
  | creditLink (l : ℕ)
  deriving DecidableEq, Repr

/-- `Consumer`: the times it remembers to have scheduled, and the events of its that are
in the event queue. -/
structure Consumer where
  m_scheduled_wakeups : Finset ℕ
  events : Finset ℕ
  deriving DecidableEq

/-- `Consumer::scheduleEventAbsolute` at time `now`. -/
def Consumer.scheduleEventAbsolute (c : Consumer) (now evt_time : ℕ) : Consumer :=
  let c :=
    if evt_time ∈ c.m_scheduled_wakeups then
      c
    else
      { m_scheduled_wakeups := insert evt_time c.m_scheduled_wakeups
        events := insert evt_time c.events }
  { c with m_scheduled_wakeups := c.m_scheduled_wakeups.filter (now ≤ ·) }

/-! ## Statistics

Of the statistics only those are kept that something reads: the marked flits still to be
injected at each router, the counters of the exit test and the maximum latencies. -/

/-- The reasons for which the network asks the simulation to exit. -/
inductive ExitReason
  | all_marked_received | latency_threshold | cycle_quota
  deriving DecidableEq, Repr

structure NetStats where
  mrkd_flt_ : ℕ → ℤ
  marked_flt_injected : ℕ
  marked_flt_received : ℕ
  total_marked_flit_latency : ℕ
  total_marked_flit_received : ℕ
  flit_latency : ℕ
  flit_network_latency : ℕ
  flit_queueing_latency : ℕ
  marked_flit_latency : ℕ
  marked_flit_network_latency : ℕ
  marked_flit_queueing_latency : ℕ
  m_max_flit_latency : ℕ
  m_max_flit_network_latency : ℕ
  m_max_flit_queueing_latency : ℕ
  m_max_marked_flit_latency : ℕ
  m_max_marked_flit_network_latency : ℕ
  m_max_marked_flit_queueing_latency : ℕ
  exits : List ExitReason

/-! ## The state -/

structure NetState where
  now : ℕ
  chan : ℕ → Channel
  /-- `CrossbarSwitch::m_switch_buffer` of each router and input port -/
  m_switch_buffer : ℕ → ℕ → flitBuffer flit
  m_round_robin_inport : ℕ → ℕ → ℕ
  m_round_robin_invc : ℕ → ℕ → ℕ
  ni : ℕ → NetworkInterface
  bubble : List brownian_bubble
  m_bubble_init : Bool
  last_inter_bubble_movement : ℕ
  last_intra_bubble_movement : ℕ
  consumer : ConsumerId → Consumer
  stats : NetStats
  /-- what `random()` will return -/
  rng : List ℕ
  /-- the address of the next `new flit` -/
  next_ptr : ℕ
  /-- the flits each network interface has created, in order -/
  injected : ℕ → List flit
  /-- the flits each network interface has ejected, in order -/
  ejected : ℕ → List flit

namespace NetState

def setChan (s : NetState) (l : ℕ) (c : Channel) : NetState :=
  { s with chan := Function.update s.chan l c }

def setNI (s : NetState) (n : ℕ) (x : NetworkInterface) : NetState :=
  { s with ni := Function.update s.ni n x }

/-- `Consumer::scheduleEventAbsolute`. -/
def schedule (s : NetState) (c : ConsumerId) (evt_time : ℕ) : NetState :=
  let x := (s.consumer c).scheduleEventAbsolute s.now evt_time
  { s with consumer := Function.update s.consumer c x }

/-- `random()`. -/
def random (s : NetState) : Except Fault (ℕ × NetState) :=
  match s.rng with
  | [] => throw .random_exhausted
  | x :: rest => pure (x, { s with rng := rest })

end NetState

/-- Wake the endpoint of a link. -/
def Endpoint.consumer : Endpoint → ConsumerId
  | .router r => .router r
  | .ni n => .ni n

/-- `CreditLink::scheduleEventAbsolute` and its like on the consumer of a link. -/
def NetState.scheduleEndpoint (s : NetState) (e : Option Endpoint) (evt_time : ℕ) : NetState :=
  match e with
  | some e => s.schedule e.consumer evt_time
  | none => s

/-! ## The initial state -/

namespace GarnetNetwork

variable (net : GarnetNetwork)

def initChannel : Channel where
  m_outvc_state := fun vc => .new (net.max_credit_count vc)
  m_out_buffer := .empty
  linkBuffer := .empty
  m_vcs := fun _ => .new
  creditQueue := .empty
  creditBuffer := .empty

/-- A network interface with its protocol buffers. -/
def initNI (inNode outNode : ℕ → Option MessageBuffer) : NetworkInterface where
  m_vc_allocator := fun _ => 0
  m_vc_round_robin := 0
  m_ni_out_vcs := fun _ => .empty
  m_ni_out_vcs_enqueue_time := fun _ => INFINITE_
  m_stall_queue := []
  m_stall_count := fun _ => 0
  inNode_ptr := inNode
  outNode_ptr := outNode
  vc_busy_counter := fun _ => 0

def initStats : NetStats where
  mrkd_flt_ := net.marked_flit
  marked_flt_injected := 0
  marked_flt_received := 0
  total_marked_flit_latency := 0
  total_marked_flit_received := 0
  flit_latency := 0
  flit_network_latency := 0
  flit_queueing_latency := 0
  marked_flit_latency := 0
  marked_flit_network_latency := 0
  marked_flit_queueing_latency := 0
  m_max_flit_latency := 0
  m_max_flit_network_latency := 0
  m_max_flit_queueing_latency := 0
  m_max_marked_flit_latency := 0
  m_max_marked_flit_network_latency := 0
  m_max_marked_flit_queueing_latency := 0
  exits := []

/-- The network before the first event. `inNode` and `outNode` are the protocol buffers of
each node and virtual network, still empty, and `rng` is what `random()` will return. -/
def init (inNode outNode : ℕ → ℕ → Option MessageBuffer) (rng : List ℕ) : NetState where
  now := 0
  chan := fun _ => net.initChannel
  m_switch_buffer := fun _ _ => .empty
  m_round_robin_inport := fun _ _ => 0
  m_round_robin_invc := fun _ _ => 0
  ni := fun n => initNI (inNode n) (outNode n)
  bubble := List.replicate net.m_num_bubble .zero
  m_bubble_init := false
  last_inter_bubble_movement := 0
  last_intra_bubble_movement := 0
  consumer := fun _ => ⟨∅, ∅⟩
  stats := net.initStats
  rng := rng
  next_ptr := 0
  injected := fun _ => []
  ejected := fun _ => []

end GarnetNetwork

end Bindu.Garnet
