/-
Routing in a mesh: the tables of `Mesh_XY` are XY routing.

The shortest distance from router `r` to a node is one step per column, two per row and one
for the link out of the network. That closed form is an upper bound because XY routing is a
walk of that weight, and a lower bound because no link changes it by more than its weight.
The candidates of `lookupRoutingTable` are then the productive directions, and the least
weight among them is the direction XY routing takes.
-/
import Bindu.Garnet.TableRouting
import Bindu.Garnet.Mesh

open Bindu.Lib

namespace Bindu.Garnet

open MeshSize Garnet.Topology

namespace MeshSize

variable {m : MeshSize}

/-- The weight of an XY path from router `r` to router `dest` and out of the network. -/
def distTo (m : MeshSize) (r dest : ℕ) : ℕ :=
  (m.hops r dest).x_hops + 2 * (m.hops r dest).y_hops + 1

/-- A link changes the distance by its weight at most, and lowers it by its weight in the
productive directions only. -/
theorem MeshLink.distTo {r r' : ℕ} {d : PortDirection} (h : m.MeshLink r r' d) (dest : ℕ) :
    m.distTo r dest ≤ weightOf d + m.distTo r' dest
      ∧ (m.Productive r dest d ↔ weightOf d + m.distTo r' dest = m.distTo r dest) := by
  obtain ⟨-, -, h⟩ := h
  cases d <;> simp only [Adjacent] at h <;>
    simp only [MeshSize.distTo, hops, weightOf, Productive] <;> omega

end MeshSize

/-! ## Shortest distances in a mesh -/

section MeshNetwork

variable {m : MeshSize} {lat : ℕ} {p : Params} {shape : 0 < p.num_rows →
  p.num_rows * ((Mesh_XY m lat).m_number_of_switches / p.num_rows)
    = (Mesh_XY m lat).m_number_of_switches}

variable (lat) in
theorem mesh_weights (r r' : ℕ) :
    (∃ d, m.MeshLink r r' d ∧ (Mesh_XY m lat).topology_weights (r + 2 * m.nodes.length)
        (r' + 2 * m.nodes.length) = weightOf d)
      ∨ (Mesh_XY m lat).topology_weights (r + 2 * m.nodes.length) (r' + 2 * m.nodes.length)
        = if r = r' then 0 else INFINITE_LATENCY := by
  cases he : (Mesh_XY m lat).m_link_map (r + 2 * m.nodes.length, r' + 2 * m.nodes.length) with
  | none => exact .inr (by simp [topology_weights, he])
  | some e =>
    obtain ⟨d, hd, rfl⟩ := mesh_link_map.mp he
    exact .inl ⟨d, hd, by simp [topology_weights, he]⟩

variable {l : BasicExtLink}

theorem weights_to_node {T : Topology} (hl : l ∈ T.m_ext_link_vector) (k : ℕ) :
    T.topology_weights k (l.ext_node + T.m_nodes)
      = if k = l.int_node + 2 * T.m_nodes then l.m_weight
        else if k = l.ext_node + T.m_nodes then 0 else INFINITE_LATENCY := by
  split_ifs with hk hk'
  · obtain ⟨e, he, hmem⟩ := exists_m_link_map_of_mem
      (mem_addLinkCalls.mpr (.inr (.inl ⟨l, hl, rfl, rfl⟩)))
    subst hk
    simp only [topology_weights, he]
    exact ((mem_addLinkCalls_ext hl hmem).2 rfl).2
  · have hn := ext_node_lt hl
    rw [hk', topology_weights_ext_out hn, if_pos rfl]
  · cases he : T.m_link_map (k, l.ext_node + T.m_nodes) with
    | none => simp [topology_weights, he, hk']
    | some e =>
      exact absurd ((mem_addLinkCalls_ext hl (mem_addLinkCalls_of_m_link_map he)).2 rfl).1 hk

theorem mesh_ext_weight (hl : l ∈ (Mesh_XY m lat).m_ext_link_vector) :
    l.m_weight = 1 := by
  obtain ⟨ni, -, rfl⟩ := List.mem_map.mp hl
  rfl

/-- The lower bound on distances to node `l.ext_node`, as a function of the switch. -/
def MeshSize.potential (m : MeshSize) (l : BasicExtLink) (k : ℕ) : ℕ :=
  if k < m.nodes.length then 0
  else if k < 2 * m.nodes.length then
    if k = l.ext_node + m.nodes.length then 0 else INFINITE_LATENCY
  else min INFINITE_LATENCY (m.distTo (k - 2 * m.nodes.length) l.int_node)

theorem MeshSize.potential_le (m : MeshSize) (l : BasicExtLink) (k : ℕ) :
    m.potential l k ≤ INFINITE_LATENCY := by
  unfold potential
  split_ifs
  · exact Nat.zero_le _
  · exact Nat.zero_le _
  · exact le_rfl
  · exact min_le_left _ _

theorem MeshSize.potential_router (m : MeshSize) (l : BasicExtLink) (r : ℕ) :
    m.potential l (r + 2 * m.nodes.length) = min INFINITE_LATENCY (m.distTo r l.int_node) := by
  rw [potential, if_neg (by omega), if_neg (by omega), Nat.add_sub_cancel]

theorem weights_to_ext_in {T : Topology} {i k : ℕ} (hk : k < T.m_nodes) (hik : i ≠ k) :
    T.topology_weights i k = INFINITE_LATENCY := by
  cases he : T.m_link_map (i, k) with
  | none => simp [topology_weights, he, hik]
  | some e =>
    rcases mem_addLinkCalls.mp (mem_addLinkCalls_of_m_link_map he) with
      ⟨l, hl, heq, -⟩ | ⟨l, hl, heq, -⟩ | ⟨l, hl, heq, -⟩ <;>
      simp only [Prod.mk.injEq] at heq <;> omega

/-- No edge of the mesh lowers the potential by more than its weight. -/
theorem mesh_potential_step (hl : l ∈ (Mesh_XY m lat).m_ext_link_vector) (i k : ℕ) :
    m.potential l i ≤ (Mesh_XY m lat).topology_weights i k + m.potential l k := by
  have hN : (Mesh_XY m lat).m_nodes = m.nodes.length := rfl
  have hle := m.potential_le l i
  by_cases hik : i = k
  · subst hik
    exact Nat.le_add_left _ _
  by_cases hk1 : k < m.nodes.length
  · rw [weights_to_ext_in hk1 hik]
    omega
  by_cases hk2 : k < 2 * m.nodes.length
  · by_cases hk : k = l.ext_node + m.nodes.length
    · -- the link to the node itself
      have hw := weights_to_node hl i
      rw [hN, ← hk, if_neg hik] at hw
      rw [hw]
      split_ifs with h1
      · rw [mesh_ext_weight hl, h1, m.potential_router]
        have : m.distTo l.int_node l.int_node = 1 := by simp [distTo, hops]
        omega
      · omega
    · have : m.potential l k = INFINITE_LATENCY := by simp [potential, hk1, hk2, hk]
      omega
  by_cases hi1 : i < m.nodes.length
  · simp [potential, hi1]
  by_cases hi2 : i < 2 * m.nodes.length
  · have hw := topology_weights_ext_out (T := Mesh_XY m lat) (n := i - m.nodes.length) (by omega) k
    rw [hN, Nat.sub_add_cancel (by omega), if_neg hik] at hw
    omega
  -- both switches are routers
  obtain ⟨r, rfl⟩ : ∃ r, i = r + 2 * m.nodes.length := ⟨i - 2 * m.nodes.length, by omega⟩
  obtain ⟨r', rfl⟩ : ∃ r', k = r' + 2 * m.nodes.length := ⟨k - 2 * m.nodes.length, by omega⟩
  rcases mesh_weights lat r r' with ⟨d, hd, hw⟩ | hw
  · rw [hw, m.potential_router, m.potential_router]
    have := (hd.distTo l.int_node).1
    omega
  · rw [hw, if_neg (by omega)]
    omega

theorem mesh_potential_last (hl : l ∈ (Mesh_XY m lat).m_ext_link_vector) (i : ℕ) :
    m.potential l i ≤ (Mesh_XY m lat).topology_weights i (l.ext_node + m.nodes.length) := by
  have h := mesh_potential_step hl i (l.ext_node + m.nodes.length)
  have hn := ext_node_lt hl
  have hN : (Mesh_XY m lat).m_nodes = m.nodes.length := rfl
  have hzero : m.potential l (l.ext_node + m.nodes.length) = 0 := by
    rw [potential, if_neg (by omega), if_pos (by omega), if_pos rfl]
  omega

theorem int_node_lt (hl : l ∈ (Mesh_XY m lat).m_ext_link_vector) :
    l.int_node < m.num_routers := (Mesh_XY m lat).ext_routers l hl

variable (lat) in
theorem mesh_router_lt_num_switches {r r' : ℕ} {d : PortDirection} (h : m.MeshLink r r' d) :
    r + 2 * m.nodes.length < (Mesh_XY m lat).num_switches
      ∧ r' + 2 * m.nodes.length < (Mesh_XY m lat).num_switches :=
  (mem_madeLinks.mp (mesh_madeLink lat h)).1

/-- XY routing is a walk of the weight `distTo`. The induction is on that weight. -/
theorem mesh_dist_le (hl : l ∈ (Mesh_XY m lat).m_ext_link_vector) (r : ℕ) (hr : r < m.num_routers) :
    (Mesh_XY m lat).dist (r + 2 * m.nodes.length) (l.ext_node + m.nodes.length)
      ≤ m.distTo r l.int_node := by
  have hS : l.ext_node + m.nodes.length < (Mesh_XY m lat).num_switches :=
    ext_out_lt_num_switches (ext_node_lt hl)
  induction hd : m.distTo r l.int_node using Nat.strong_induction_on generalizing r with
  | _ c ih =>
    by_cases heq : l.int_node = r
    · subst heq
      have hmem : l.int_node + 2 * m.nodes.length < (Mesh_XY m lat).num_switches :=
        (mem_madeLinks.mp (ext_madeLinks hl).2.1).1.1
      refine ((Mesh_XY m lat).dist_spec.1.le_edge hmem hS).trans ?_
      have hw : (Mesh_XY m lat).topology_weights (l.int_node + 2 * m.nodes.length)
          (l.ext_node + m.nodes.length) = l.m_weight :=
        (weights_to_node hl _).trans (if_pos rfl)
      rw [hw, mesh_ext_weight hl]
      rw [← hd, distTo]
      omega
    · have hprod := productive_dirnXY (m := m) heq
      obtain ⟨r', hlink⟩ := hprod.exists_neighbour hr (int_node_lt hl)
      obtain ⟨hS1, hS2⟩ := mesh_router_lt_num_switches lat hlink
      have hstep := ((hlink.distTo _).2).mp hprod
      obtain ⟨hpos, -⟩ := weightOf_bounds (m.hops r l.int_node).dirnXY
      have hrec := ih (m.distTo r' l.int_node) (by omega) r' hlink.2.1 rfl
      have hvia := (Mesh_XY m lat).dist_spec.1.le_via hS1 hS2 hS
      have hw : (Mesh_XY m lat).topology_weights (r + 2 * m.nodes.length)
          (r' + 2 * m.nodes.length) = weightOf (m.hops r l.int_node).dirnXY := by
        simp [topology_weights, mesh_link_map.mpr ⟨_, hlink, rfl⟩]
      rw [hw] at hvia
      exact hvia.trans (by omega)

/-- **The closed form of the distances** that are below `INFINITE_LATENCY`. -/
theorem mesh_dist_eq (hl : l ∈ (Mesh_XY m lat).m_ext_link_vector) {r : ℕ} (hr : r < m.num_routers)
    (hreach : (Mesh_XY m lat).dist (r + 2 * m.nodes.length) (l.ext_node + m.nodes.length)
      < INFINITE_LATENCY) :
    (Mesh_XY m lat).dist (r + 2 * m.nodes.length) (l.ext_node + m.nodes.length)
      = m.distTo r l.int_node := by
  refine le_antisymm (mesh_dist_le hl r hr) ?_
  have hS : l.ext_node + m.nodes.length < (Mesh_XY m lat).num_switches :=
    ext_out_lt_num_switches (ext_node_lt hl)
  have hS1 : r + 2 * m.nodes.length < (Mesh_XY m lat).num_switches :=
    lt_num_switches_of_dist (ext_node_lt hl) hreach
  have h := Walk.potential_le (S := {k | k < (Mesh_XY m lat).num_switches})
    (fun i _ => mesh_potential_last hl i) (fun i _ k _ => mesh_potential_step hl i k) hS1
    ((Mesh_XY m lat).dist_spec.1.walk _ hS1 _ hS)
  rw [m.potential_router] at h
  omega

/-! ## Table routing is XY routing -/

/-- A port whose entry contains the node leads to a neighbour in a productive direction. -/
theorem mesh_matching_port (hl : l ∈ (Mesh_XY m lat).m_ext_link_vector)
    {r o : ℕ} (hr : r < m.num_routers) (hne : l.int_node ≠ r)
    (hreach : (Mesh_XY m lat).dist (r + 2 * m.nodes.length) (l.ext_node + m.nodes.length)
      < INFINITE_LATENCY)
    (ho : o ∈ matchingLinks ((Mesh_XY m lat).network p shape) r {l.ext_node}) :
    ∃ q, (((Mesh_XY m lat).network p shape).m_output_unit r)[o]? = some q
      ∧ m.Productive r l.int_node q.m_direction
      ∧ q.m_weight_table = weightOf q.m_direction := by
  obtain ⟨j, k, hk, hport, hmem⟩ := mem_matchingLinks.mp ho
  have hmade := List.mem_of_getElem? hk
  refine ⟨_, hport, ?_⟩
  rcases mesh_outport_cases hport with ⟨-, n, hn, hni⟩ | ⟨r', hlink, -, hw, hm⟩
  · -- a link out of the network would have to end at the node, which is elsewhere
    exfalso
    rw [outPortOf_m_out_link] at hni
    obtain ⟨ij, hij, hc⟩ := linkConsumer_eq_some.mp hni
    obtain rfl := Option.some.inj (hk.symm.trans hij)
    obtain ⟨-, hj⟩ := ((consumer_linkOf hmade).1.2 n).mp hc
    rcases matching_port (l := k) hmade hmem hreach with ⟨heq, -⟩ | ⟨r', heq, -⟩
    · rw [heq] at hmade
      have := (ext_madeLinks hl).2.2.2 _ hmade
      omega
    · have hN : (Mesh_XY m lat).m_nodes = m.nodes.length := rfl
      omega
  · refine ⟨?_, hw⟩
    rw [outPortOf_m_out_link] at hm
    obtain rfl : j = r' + 2 * m.nodes.length := by
      have heq := Option.some.inj (hk.symm.trans hm)
      exact (Prod.mk.inj heq).2
    obtain ⟨-, hsum⟩ := mem_tableOf.mp hmem
    have hweight := (entry_weight_of_madeLink hmade).symm
    rw [← (outPortOf_fields _ _ k).2, hw] at hweight
    rw [hweight] at hsum
    change _ + (Mesh_XY m lat).dist (r' + 2 * m.nodes.length) (l.ext_node + m.nodes.length)
      = (Mesh_XY m lat).dist (r + 2 * m.nodes.length) (l.ext_node + m.nodes.length) at hsum
    have hr' := mesh_dist_eq hl hlink.2.1 (by omega)
    have hr := mesh_dist_eq hl hr hreach
    exact (hlink.distTo _).2.mpr (by omega)

variable (shape) in
theorem mesh_XY_port_matches (hl : l ∈ (Mesh_XY m lat).m_ext_link_vector)
    {r : ℕ} (hr : r < m.num_routers) (hne : l.int_node ≠ r)
    (hreach : (Mesh_XY m lat).dist (r + 2 * m.nodes.length) (l.ext_node + m.nodes.length)
      < INFINITE_LATENCY) :
    m_outports_dirn2idx ((Mesh_XY m lat).network p shape) r (m.hops r l.int_node).dirnXY
      ∈ matchingLinks ((Mesh_XY m lat).network p shape) r {l.ext_node} := by
  have hprod := productive_dirnXY (m := m) hne
  obtain ⟨r', hlink⟩ := hprod.exists_neighbour hr (int_node_lt hl)
  obtain ⟨q, hq, hdir, hw, hcons⟩ := mesh_outport shape hlink
  obtain ⟨j, k, hk, rfl⟩ := getElem?_m_output_unit hq
  have hmade := List.mem_of_getElem? hk
  rw [outPortOf_m_out_link] at hcons
  obtain ⟨ij, hij, hc⟩ := linkConsumer_eq_some.mp hcons
  obtain rfl := Option.some.inj (hk.symm.trans hij)
  obtain rfl := ((consumer_linkOf hmade).1.1 r').mp hc
  refine mem_matchingLinks.mpr ⟨_, k, hk, hq, mem_tableOf.mpr ⟨ext_node_lt hl, ?_⟩⟩
  have hweight := entry_weight_of_madeLink hmade
  rw [← (outPortOf_fields _ _ k).2, hw] at hweight
  rw [← hweight]
  change _ + (Mesh_XY m lat).dist (r' + 2 * m.nodes.length) (l.ext_node + m.nodes.length)
    = (Mesh_XY m lat).dist (r + 2 * m.nodes.length) (l.ext_node + m.nodes.length)
  have hstep := ((hlink.distTo _).2).mp hprod
  have hr' := mesh_dist_le hl r' hlink.2.1
  have hr := mesh_dist_eq hl hr hreach
  have hr'' := mesh_dist_eq hl hlink.2.1 (by omega)
  omega

/-- Among the productive directions, one that weighs no more than that of XY routing is the
direction of XY routing. -/
theorem MeshSize.Productive.eq_dirnXY {r dest : ℕ} {d : PortDirection} (h : m.Productive r dest d)
    (hw : weightOf d ≤ weightOf (m.hops r dest).dirnXY) :
    d = (m.hops r dest).dirnXY := by
  rw [dirnXY_hops] at hw ⊢
  cases d <;> simp only [Productive] at h <;> split_ifs at hw ⊢ <;>
    simp only [weightOf] at hw <;> first | rfl | omega

/-- **Table routing on `Mesh_XY` is XY routing.** In every mesh, at every router, for every
node attached to another router and within `INFINITE_LATENCY`, in every state, the two
functions return the same output port. -/
theorem mesh_table_eq_XY (m : MeshSize) (lat : ℕ) (p : Params) (shape)
    (hrows : p.num_rows = m.num_rows) (s : NetState) (r d : ℕ) (hr : r < m.num_routers)
    (hd : d < m.nodes.length) (route : RouteInfo) (hdest : route.net_dest = {d})
    (hrouter : route.dest_router = ((Mesh_XY m lat).network p shape).m_router_id d)
    (hne : route.dest_router ≠ r)
    (hreach : (Mesh_XY m lat).dist (r + 2 * m.nodes.length) (d + m.nodes.length)
      < INFINITE_LATENCY) :
    ∃ o, lookupRoutingTable ((Mesh_XY m lat).network p shape) s r route.vnet route.net_dest = .ok o
      ∧ outportComputeXY ((Mesh_XY m lat).network p shape) s r route = .ok (o, s) := by
  obtain ⟨l, hl, rfl⟩ := exists_ext_link (T := Mesh_XY m lat) hd
  rw [(ext_link_ni shape hl).1] at hrouter
  rw [hrouter] at hne
  have hmatch := mesh_XY_port_matches shape hl hr hne hreach
  have hprod := productive_dirnXY (m := m) hne
  obtain ⟨r', hlink⟩ := hprod.exists_neighbour hr (int_node_lt hl)
  obtain ⟨q, hq, hdir, hw, -⟩ := mesh_outport shape hlink
  have hweight : m_weight_table ((Mesh_XY m lat).network p shape) r
      (m_outports_dirn2idx ((Mesh_XY m lat).network p shape) r (m.hops r l.int_node).dirnXY)
      = weightOf (m.hops r l.int_node).dirnXY := by
    simp only [m_weight_table, hq, hw]
  obtain ⟨o, ho, hlookup, hmin⟩ := lookupRoutingTable_spec ((Mesh_XY m lat).network p shape) s r
    route.vnet {l.ext_node} ⟨_, hmatch, by
      rw [hweight]
      exact (weightOf_bounds _).2.trans (by decide)⟩
  obtain ⟨q', hq', hprod', hw'⟩ := mesh_matching_port hl hr hne hreach ho
  have hle := hmin _ hmatch
  rw [hweight, m_weight_table, hq'] at hle
  simp only [hw'] at hle
  have hdirs : q'.m_direction = q.m_direction := (hprod'.eq_dirnXY hle).trans hdir.symm
  have hlocal : q.m_direction ≠ .Local := by
    rw [hdir]
    intro h
    rw [h] at hprod
    exact hprod
  obtain rfl := mesh_outport_unique hq hq' hdirs hlocal
  refine ⟨_, by rw [hdest]; exact hlookup, ?_⟩
  rw [outportComputeXY, mesh_hopsTo hrows (hrouter ▸ hne), hrouter]
  rfl

/-- The two by two mesh with the default options. -/
def twoByTwoNet : GarnetNetwork := (Mesh_XY .twoByTwo 1).network (.default 2) (by decide)

/-- From router 0 to node 3 of the two by two mesh the functions agree. -/
theorem mesh_table_eq_XY_twoByTwo :
    ∃ o, lookupRoutingTable twoByTwoNet
        (twoByTwoNet.init (fun _ _ => none) (fun _ _ => none) []) 0 0 {3} = .ok o
      ∧ outportComputeXY twoByTwoNet (twoByTwoNet.init (fun _ _ => none) (fun _ _ => none) []) 0
        ⟨0, {3}, 0, 0, 3, 3, -1⟩
        = .ok (o, twoByTwoNet.init (fun _ _ => none) (fun _ _ => none) []) := by
  have hl : (⟨3, 3, 1, 1⟩ : BasicExtLink) ∈ (Mesh_XY .twoByTwo 1).m_ext_link_vector := by decide
  refine mesh_table_eq_XY .twoByTwo 1 (.default 2) (by decide) rfl _ 0 3 (by decide) (by decide)
    ⟨0, {3}, 0, 0, 3, 3, -1⟩ rfl ?_ (by decide) ?_
  · exact (ext_link_ni _ hl).1.symm
  · exact (mesh_dist_le hl 0 (by decide)).trans_lt (by decide)

end MeshNetwork

end Bindu.Garnet
