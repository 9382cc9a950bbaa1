/-
The network before it runs: `Topology` with its all-pairs shortest paths, and the routers,
ports and links that `Topology::createLinks` has `GarnetNetwork` build.

Sources: `Topology.cc`, and of `garnet2.0` the functions `GarnetNetwork::makeExtInLink`,
`makeExtOutLink`, `makeInternalLink`, `Router::addInPort`, `Router::addOutPort`,
`NetworkInterface::addInPort`, `NetworkInterface::addOutPort`.

`Topology` numbers its switches: the first `m_nodes` are the inputs of the network, the
next `m_nodes` its outputs, and router `r` is `r + 2 * m_nodes`. A link object is named by
its position in `m_networklinks`; the credit link that runs the other way has the same
number, because the three `make...Link` functions create and connect the two together.
-/
import Bindu.Garnet.Flit

namespace Bindu.Garnet

open Function

/-! ## What `createLinks` builds -/

/-- The fixed part of an `InputUnit`, with the link it reads. -/
structure InPort where
  m_direction : PortDirection
  m_in_link : ℕ
  m_src_router : ℤ
  deriving DecidableEq

/-- The fixed part of an `OutputUnit`, with the link it feeds and the routing table entry and
link weight that `addOutPort` stores for it in the `RoutingUnit`. -/
structure OutPort where
  m_direction : PortDirection
  m_out_link : ℕ
  m_dest_router : ℤ
  m_routing_table : NetDest
  m_weight_table : ℕ
  deriving DecidableEq

/-- Who is woken by a link. -/
inductive Endpoint
  | router (id : ℕ)
  | ni (id : ℕ)
  deriving DecidableEq, Repr

/-- A network link and its credit link. `link_consumer` receives the flits;
`credit_consumer`, which receives the credits, is the one that sends the flits. -/
structure NetworkLink where
  m_latency : ℕ
  m_link_src : ℤ
  m_link_dest : ℤ
  link_consumer : Endpoint
  credit_consumer : Endpoint
  deriving DecidableEq

structure Wiring where
  m_networklinks : List NetworkLink
  m_input_unit : ℕ → List InPort
  m_output_unit : ℕ → List OutPort
  /-- `NetworkInterface::inNetLink` -/
  inNetLink : ℕ → ℕ
  /-- `NetworkInterface::outNetLink` -/
  outNetLink : ℕ → ℕ
  /-- `NetworkInterface::m_router_id` -/
  m_router_id : ℕ → ℕ

/-- Before the first link is made. -/
def Wiring.empty : Wiring where
  m_networklinks := []
  m_input_unit := fun _ => []
  m_output_unit := fun _ => []
  inNetLink := fun _ => 0
  outNetLink := fun _ => 0
  m_router_id := fun _ => 0

namespace Wiring

/-- `m_networklinks.push_back`; the new link's number is the old length. -/
def addLink (net : Wiring) (link : NetworkLink) : Wiring :=
  { net with m_networklinks := net.m_networklinks ++ [link] }

/-- `Router::addInPort` of router `r`. -/
def addInPort (net : Wiring) (r : ℕ) (inport_dirn : PortDirection) (id : ℕ) (link_src : ℤ) :
    Wiring :=
  { net with
    m_input_unit := update net.m_input_unit r
      (net.m_input_unit r ++ [⟨inport_dirn, id, link_src⟩]) }

/-- `Router::addOutPort` of router `r`. -/
def addOutPort (net : Wiring) (r : ℕ) (outport_dirn : PortDirection) (id : ℕ) (link_dest : ℤ)
    (routing_table_entry : NetDest) (link_weight : ℕ) : Wiring :=
  { net with
    m_output_unit := update net.m_output_unit r (net.m_output_unit r ++
        [⟨outport_dirn, id, link_dest, routing_table_entry, link_weight⟩]) }

def makeExtInLink (net : Wiring) (src dest latency : ℕ) : Wiring :=
  let id := net.m_networklinks.length
  let net := net.addLink ⟨latency, -1, -1, .router dest, .ni src⟩
  let net := net.addInPort dest .Local id (-1)
  { net with
    outNetLink := update net.outNetLink src id
    m_router_id := update net.m_router_id src dest }

def makeExtOutLink (net : Wiring) (src dest latency weight : ℕ)
    (routing_table_entry : NetDest) : Wiring :=
  let id := net.m_networklinks.length
  let net := net.addLink ⟨latency, -1, -1, .ni dest, .router src⟩
  let net := net.addOutPort src .Local id (-1) routing_table_entry weight
  { net with inNetLink := update net.inNetLink dest id }

def makeInternalLink (net : Wiring) (src dest latency weight : ℕ)
    (routing_table_entry : NetDest) (src_outport_dirn dst_inport_dirn : PortDirection) : Wiring :=
  let id := net.m_networklinks.length
  let net := net.addLink ⟨latency, src, dest, .router dest, .router src⟩
  let net := net.addInPort dest dst_inport_dirn id src
  net.addOutPort src src_outport_dirn id dest routing_table_entry weight

end Wiring

/-! ## `Topology` -/

/-- `BasicExtLink`: `ext_node` is the node number of the controller. -/
structure BasicExtLink where
  ext_node : ℕ
  int_node : ℕ
  m_latency : ℕ
  m_weight : ℕ
  deriving DecidableEq

structure BasicIntLink where
  src_node : ℕ
  dst_node : ℕ
  src_outport : PortDirection
  dst_inport : PortDirection
  m_latency : ℕ
  m_weight : ℕ
  deriving DecidableEq

structure LinkEntry where
  m_latency : ℕ
  m_weight : ℕ
  src_outport_dirn : PortDirection
  dst_inport_dirn : PortDirection
  deriving DecidableEq

/-- A topology. The last four fields are what every topology file does: each controller is
attached by exactly one external link, and links name existing routers. The topology files
leave the weight of an external link at its default 1; with weight 0 or `INFINITE_LATENCY`
`createLinks` would pass it over and the network interface would have no link. -/
structure Topology where
  m_nodes : ℕ
  m_number_of_switches : ℕ
  m_ext_link_vector : List BasicExtLink
  m_int_link_vector : List BasicIntLink
  ext_nodes : (m_ext_link_vector.map BasicExtLink.ext_node).Perm (List.range m_nodes)
  ext_routers : ∀ l ∈ m_ext_link_vector, l.int_node < m_number_of_switches
  ext_weights : ∀ l ∈ m_ext_link_vector, 0 < l.m_weight ∧ l.m_weight ≠ 10000
  int_routers : ∀ l ∈ m_int_link_vector,
    l.src_node < m_number_of_switches ∧ l.dst_node < m_number_of_switches

/-- `INFINITE_LATENCY` of `Topology.cc`. -/
abbrev INFINITE_LATENCY : ℕ := 10000

abbrev LinkMap := ℕ × ℕ → Option LinkEntry

namespace Topology

/-- The `addLink` calls of the constructor, in order. -/
def addLinkCalls (T : Topology) : List ((ℕ × ℕ) × LinkEntry) :=
  T.m_ext_link_vector.flatMap (fun l =>
      let ext_idx1 := l.ext_node
      let ext_idx2 := ext_idx1 + T.m_nodes
      let int_idx := l.int_node + 2 * T.m_nodes
      let entry : LinkEntry := ⟨l.m_latency, l.m_weight, .other "", .other ""⟩
      [((ext_idx1, int_idx), entry), ((int_idx, ext_idx2), entry)])
    ++ T.m_int_link_vector.map (fun l =>
      ((l.src_node + 2 * T.m_nodes, l.dst_node + 2 * T.m_nodes),
        ⟨l.m_latency, l.m_weight, l.src_outport, l.dst_inport⟩))

/-- `Topology::addLink`: a later link for the same pair overwrites an earlier one. -/
def addLink (m : LinkMap) (call : (ℕ × ℕ) × LinkEntry) : LinkMap :=
  update m call.1 (some call.2)

def m_link_map (T : Topology) : LinkMap := T.addLinkCalls.foldl addLink (fun _ => none)

/-- `max_switch_id + 1`. -/
def num_switches (T : Topology) : ℕ :=
  T.addLinkCalls.foldl (fun m call => max m (max call.1.1 call.1.2)) 0 + 1

def topology_weights (T : Topology) (i j : ℕ) : ℕ :=
  match T.m_link_map (i, j) with
  | some link => link.m_weight
  | none => if i = j then 0 else INFINITE_LATENCY

def component_latencies (T : Topology) (i j : ℕ) : ℤ :=
  match T.m_link_map (i, j) with
  | some link => link.m_latency
  | none => -1

end Topology

/-! ## All-pairs shortest paths -/

/-- `m[i][j] = x`. -/
def setEntry {α : Type} (m : ℕ → ℕ → α) (i j : ℕ) (x : α) : ℕ → ℕ → α :=
  update m i (update (m i) j x)

theorem setEntry_apply {α : Type} (m : ℕ → ℕ → α) (i j : ℕ) (x : α) (a b : ℕ) :
    setEntry m i j x a b = if a = i ∧ b = j then x else m a b := by
  unfold setEntry
  by_cases ha : a = i
  · subst ha
    by_cases hb : b = j
    · subst hb; simp
    · simp [hb]
  · simp [ha]

/-- The three matrices `extend_shortest_path` works on. -/
structure Paths where
  current_dist : ℕ → ℕ → ℕ
  latencies : ℕ → ℕ → ℤ
  inter_switches : ℕ → ℕ → ℕ

/-- The local variables of the loop over `k`. -/
structure Relaxation where
  minimum : ℕ
  intermediate_switch : Option ℕ
  inter_switches : ℕ → ℕ → ℕ

/-- One iteration of the loop over `k`. -/
def relaxVia (current_dist : ℕ → ℕ → ℕ) (i j : ℕ) (st : Relaxation) (k : ℕ) : Relaxation :=
  let minimum := min st.minimum (current_dist i k + current_dist k j)
  if st.minimum ≠ minimum then
    { minimum := minimum
      intermediate_switch := some k
      inter_switches := setEntry st.inter_switches i j
        (st.inter_switches i k + st.inter_switches k j + 1) }
  else
    st

/-- The body of the loops over `i` and `j`. -/
def relaxEntry (nodes : ℕ) (st : Paths × Bool) (ij : ℕ × ℕ) : Paths × Bool :=
  let p := st.1
  let (i, j) := ij
  let r := (List.range nodes).foldl (relaxVia p.current_dist i j)
    ⟨p.current_dist i j, none, p.inter_switches⟩
  let p := { p with inter_switches := r.inter_switches }
  if p.current_dist i j ≠ r.minimum then
    match r.intermediate_switch with
    | some k =>
      ({ p with
          current_dist := setEntry p.current_dist i j r.minimum
          latencies := setEntry p.latencies i j (p.latencies i k + p.latencies k j) }, true)
    -- the source asserts that this case does not arise
    | none => ({ p with current_dist := setEntry p.current_dist i j r.minimum }, true)
  else
    (p, st.2)

/-- The entries in the order the two outer loops visit them. -/
def entries (nodes : ℕ) : List (ℕ × ℕ) :=
  (List.range nodes).flatMap (fun i => (List.range nodes).map (fun j => (i, j)))

/-- One pass of the `while (change)` loop. -/
def extend_pass (nodes : ℕ) (p : Paths) : Paths × Bool :=
  (entries nodes).foldl (relaxEntry nodes) (p, false)

/-- `Topology::extend_shortest_path`. The `while` loop has no bound in the source; `fuel`
bounds the number of passes, and `none` is a loop that has not come to rest by then. -/
def extend_shortest_path (nodes : ℕ) : ℕ → Paths → Option Paths
  | 0, _ => none
  | fuel + 1, p =>
    let (p', change) := extend_pass nodes p
    if change then extend_shortest_path nodes fuel p' else some p'

/-- The sum of all entries, which every pass but the last one lowers. -/
def totalDist (nodes : ℕ) (dist : ℕ → ℕ → ℕ) : ℕ :=
  ((entries nodes).map (fun ij => dist ij.1 ij.2)).sum

namespace Topology

/-- `dist` of `createLinks`. -/
def dist (T : Topology) : ℕ → ℕ → ℕ :=
  let init : Paths := ⟨T.topology_weights, T.component_latencies, fun _ _ => 0⟩
  ((extend_shortest_path T.num_switches (totalDist T.num_switches T.topology_weights + 1)
    init).getD init).current_dist

def link_is_shortest_path_to_node (src next final : ℕ) (weights dist : ℕ → ℕ → ℕ) : Bool :=
  weights src next + dist next final = dist src final

/-- `shortest_path_to_node`: the destination of node `d` is switch `d + m_nodes`. -/
def shortest_path_to_node (T : Topology) (src next : ℕ) (weights dist : ℕ → ℕ → ℕ) : NetDest :=
  (Finset.range T.m_nodes).filter (fun d =>
    link_is_shortest_path_to_node src next (d + T.m_nodes) weights dist)

def makeLink (T : Topology) (net : Wiring) (src dest : ℕ) (routing_table_entry : NetDest) :
    Wiring :=
  match T.m_link_map (src, dest) with
  | none => net
  | some link =>
    if src < T.m_nodes then
      net.makeExtInLink src (dest - 2 * T.m_nodes) link.m_latency
    else if dest < 2 * T.m_nodes then
      net.makeExtOutLink (src - 2 * T.m_nodes) (dest - T.m_nodes) link.m_latency link.m_weight
        routing_table_entry
    else
      net.makeInternalLink (src - 2 * T.m_nodes) (dest - 2 * T.m_nodes) link.m_latency
        link.m_weight routing_table_entry link.src_outport_dirn link.dst_inport_dirn

/-- The links that are made, in the order of the loops of `createLinks`. -/
def madeLinks (T : Topology) : List (ℕ × ℕ) :=
  (entries T.num_switches).filter (fun ij =>
    0 < T.topology_weights ij.1 ij.2 && T.topology_weights ij.1 ij.2 != INFINITE_LATENCY)

def createLinks (T : Topology) : Wiring :=
  T.madeLinks.foldl (fun net ij =>
    T.makeLink net ij.1 ij.2
      (T.shortest_path_to_node ij.1 ij.2 T.topology_weights T.dist)) Wiring.empty

end Topology

end Bindu.Garnet
