/-
`Mesh_XY`: the topology and the wiring of a mesh.

`configs/topologies/Mesh_XY.py` numbers the routers row by row and connects each one to its
neighbours, with weight 1 along a row and weight 2 along a column. The direction of a port
is the side of the router it is on. This file says which links there are, in terms of one
relation `MeshLink` between routers and directions, and what `m_outports_dirn2idx` returns.
-/
import Bindu.Garnet.Wiring
import Bindu.Garnet.Routing

open List

namespace Bindu.Garnet

open Garnet.Topology

/-! ## The topology file -/

/-- The size of a mesh and the controllers that are attached to it, in the order in which
`makeTopology` sees them. -/
structure MeshSize where
  num_rows : ℕ
  num_columns : ℕ
  nodes : List ℕ
  rows_pos : 0 < num_rows
  columns_pos : 0 < num_columns
  nodes_perm : nodes.Perm (range nodes.length)

variable {d : PortDirection} {r r' : ℕ}

namespace MeshSize

variable (m : MeshSize)

def num_routers : ℕ := m.num_rows * m.num_columns

/-- The router of the controller at position `i`: the controllers are dealt out to the
routers in turn, and the remainder goes to router 0. -/
def routerOf (i : ℕ) : ℕ :=
  if i < m.nodes.length - m.nodes.length % m.num_routers then i % m.num_routers else 0

def ext_links (link_latency : ℕ) : List BasicExtLink :=
  m.nodes.zipIdx.map (fun ni => ⟨ni.1, m.routerOf ni.2, link_latency, 1⟩)

/-- East output to West input links. -/
def east_links (link_latency : ℕ) : List BasicIntLink :=
  (range m.num_rows).flatMap (fun row =>
    (range m.num_columns).filterMap (fun col =>
      if col + 1 < m.num_columns then
        some ⟨col + row * m.num_columns, (col + 1) + row * m.num_columns, .East, .West,
          link_latency, 1⟩
      else none))

/-- West output to East input links. -/
def west_links (link_latency : ℕ) : List BasicIntLink :=
  (range m.num_rows).flatMap (fun row =>
    (range m.num_columns).filterMap (fun col =>
      if col + 1 < m.num_columns then
        some ⟨(col + 1) + row * m.num_columns, col + row * m.num_columns, .West, .East,
          link_latency, 1⟩
      else none))

/-- North output to South input links. -/
def north_links (link_latency : ℕ) : List BasicIntLink :=
  (range m.num_columns).flatMap (fun col =>
    (range m.num_rows).filterMap (fun row =>
      if row + 1 < m.num_rows then
        some ⟨col + row * m.num_columns, col + (row + 1) * m.num_columns, .North, .South,
          link_latency, 2⟩
      else none))

/-- South output to North input links. -/
def south_links (link_latency : ℕ) : List BasicIntLink :=
  (range m.num_columns).flatMap (fun col =>
    (range m.num_rows).filterMap (fun row =>
      if row + 1 < m.num_rows then
        some ⟨col + (row + 1) * m.num_columns, col + row * m.num_columns, .South, .North,
          link_latency, 2⟩
      else none))

def int_links (link_latency : ℕ) : List BasicIntLink :=
  m.east_links link_latency ++ m.west_links link_latency ++ m.north_links link_latency
    ++ m.south_links link_latency

/-! ## Rows and columns -/

/-- The column of router `r`. -/
def x (r : ℕ) : ℕ := r % m.num_columns

/-- The row of router `r`. -/
def y (r : ℕ) : ℕ := r / m.num_columns

variable {m}

theorem num_routers_pos : 0 < m.num_routers := Nat.mul_pos m.rows_pos m.columns_pos

theorem lt_num_routers {col row : ℕ} (hc : col < m.num_columns) (hr : row < m.num_rows) :
    col + row * m.num_columns < m.num_routers := by
  have h : (row + 1) * m.num_columns ≤ m.num_rows * m.num_columns :=
    Nat.mul_le_mul_right _ hr
  rw [Nat.add_mul] at h
  unfold num_routers
  omega

theorem x_of {col row : ℕ} (hc : col < m.num_columns) : m.x (col + row * m.num_columns) = col := by
  rw [x, Nat.add_mul_mod_self_right, Nat.mod_eq_of_lt hc]

theorem y_of {col row : ℕ} (hc : col < m.num_columns) : m.y (col + row * m.num_columns) = row := by
  rw [y, Nat.add_mul_div_right _ _ m.columns_pos, Nat.div_eq_of_lt hc, Nat.zero_add]

theorem y_lt {r : ℕ} (h : r < m.num_routers) : m.y r < m.num_rows :=
  Nat.div_lt_of_lt_mul (by rw [Nat.mul_comm]; exact h)

theorem x_lt (r : ℕ) : m.x r < m.num_columns := Nat.mod_lt _ m.columns_pos

theorem x_add_y (r : ℕ) : m.x r + m.y r * m.num_columns = r := by
  rw [Nat.mul_comm]
  exact Nat.mod_add_div r m.num_columns

theorem eq_of_x_y (hx : m.x r = m.x r') (hy : m.y r = m.y r') : r = r' := by
  rw [← x_add_y r, ← x_add_y r', hx, hy]

/-! ## Neighbours -/

variable (m)

/-- Column `col'` and row `row'` are one step in a direction from column `col` and row
`row`. -/
def Adjacent (col row col' row' : ℕ) : PortDirection → Prop
  | .East => col' = col + 1 ∧ row' = row
  | .West => col = col' + 1 ∧ row' = row
  | .North => col' = col ∧ row' = row + 1
  | .South => col' = col ∧ row = row' + 1
  | _ => False

/-- `m.MeshLink r r' dirn`: router `r'` is the neighbour of `r` in direction `dirn`. -/
def MeshLink (r r' : ℕ) (dirn : PortDirection) : Prop :=
  r < m.num_routers ∧ r' < m.num_routers ∧ Adjacent (m.x r) (m.y r) (m.x r') (m.y r') dirn

/-- The weight of the links in a direction. -/
def weightOf : PortDirection → ℕ
  | .East => 1
  | .West => 1
  | _ => 2

theorem weightOf_bounds (d : PortDirection) : 0 < weightOf d ∧ weightOf d ≤ 2 := by
  cases d <;> simp [weightOf]

theorem weightOf_makes (d : PortDirection) : 0 < weightOf d ∧ weightOf d ≠ INFINITE_LATENCY := by
  cases d <;> simp [weightOf, INFINITE_LATENCY]

def opposite : PortDirection → PortDirection
  | .East => .West
  | .West => .East
  | .North => .South
  | .South => .North
  | d => d

variable {m}

theorem MeshLink.dirn_unique {d d' : PortDirection} (h : m.MeshLink r r' d)
    (h' : m.MeshLink r r' d') : d = d' := by
  obtain ⟨-, -, h⟩ := h
  obtain ⟨-, -, h'⟩ := h'
  cases d <;> simp only [Adjacent] at h <;> cases d' <;> simp only [Adjacent] at h' <;>
    first | rfl | omega

theorem MeshLink.neighbour_unique {r r1 r2 : ℕ} (h1 : m.MeshLink r r1 d)
    (h2 : m.MeshLink r r2 d) : r1 = r2 := by
  obtain ⟨-, -, h1⟩ := h1
  obtain ⟨-, -, h2⟩ := h2
  cases d <;> simp only [Adjacent] at h1 h2 <;>
    exact eq_of_x_y (m := m) (by omega) (by omega)

theorem MeshLink.router_id (h : m.MeshLink r r' d) :
    (d = .East → r' = r + 1) ∧ (d = .West → r = r' + 1)
      ∧ (d = .North → r' = r + m.num_columns) ∧ (d = .South → r = r' + m.num_columns) := by
  have hr := x_add_y (m := m) r
  have hr' := x_add_y (m := m) r'
  obtain ⟨-, -, h⟩ := h
  refine ⟨?_, ?_, ?_, ?_⟩ <;> rintro rfl <;> simp only [Adjacent] at h
  · rw [← hr', h.1, h.2]
    omega
  · rw [← hr, h.1, ← h.2]
    omega
  · rw [← hr', h.1, h.2, Nat.add_mul, Nat.one_mul, ← Nat.add_assoc, hr]
  · rw [← hr, ← h.1, h.2, Nat.add_mul, Nat.one_mul, ← Nat.add_assoc, hr']

/-- Direction `d` brings a packet for `dest` nearer to it. -/
def Productive (m : MeshSize) (r dest : ℕ) : PortDirection → Prop
  | .East => m.x r < m.x dest
  | .West => m.x dest < m.x r
  | .North => m.y r < m.y dest
  | .South => m.y dest < m.y r
  | _ => False

theorem meshLink_of {col row col' row' : ℕ} (hc : col < m.num_columns)
    (hr : row < m.num_rows) (hc' : col' < m.num_columns) (hr' : row' < m.num_rows) :
    m.MeshLink (col + row * m.num_columns) (col' + row' * m.num_columns) d ↔
      Adjacent col row col' row' d := by
  simp only [MeshLink, lt_num_routers hc hr, lt_num_routers hc' hr', true_and, x_of hc, x_of hc',
    y_of hc, y_of hc']

theorem Productive.exists_neighbour {r dest : ℕ} (h : m.Productive r dest d)
    (hr : r < m.num_routers) (hdest : dest < m.num_routers) : ∃ r', m.MeshLink r r' d := by
  have hx := x_lt (m := m) r
  have hxd := x_lt (m := m) dest
  have hy := y_lt hr
  have hyd := y_lt hdest
  have key : ∀ col' row', col' < m.num_columns → row' < m.num_rows →
      Adjacent (m.x r) (m.y r) col' row' d → ∃ r', m.MeshLink r r' d := by
    intro col' row' hc' hr' h
    have hlink := (meshLink_of hx hy hc' hr').mpr h
    rw [x_add_y] at hlink
    exact ⟨_, hlink⟩
  cases d <;> simp only [Productive] at h
  · exact key (m.x r + 1) (m.y r) (by omega) hy ⟨rfl, rfl⟩
  · exact key (m.x r - 1) (m.y r) (by omega) hy ⟨by omega, rfl⟩
  · exact key (m.x r) (m.y r + 1) hx (by omega) ⟨rfl, rfl⟩
  · exact key (m.x r) (m.y r - 1) hx (by omega) ⟨rfl, by omega⟩

/-- **The internal links of the mesh** are the pairs of neighbours. -/
theorem mem_int_links {l : BasicIntLink} {lat : ℕ} : l ∈ m.int_links lat ↔
    ∃ d, m.MeshLink l.src_node l.dst_node d
      ∧ l = ⟨l.src_node, l.dst_node, d, opposite d, lat, weightOf d⟩ := by
  simp only [int_links, east_links, west_links, north_links, south_links, mem_append,
    mem_flatMap, mem_range, mem_filterMap, Option.ite_none_right_eq_some,
    Option.some.injEq]
  constructor
  · rintro (((⟨row, hr, col, hc, hlt, rfl⟩ | ⟨row, hr, col, hc, hlt, rfl⟩) |
      ⟨col, hc, row, hr, hlt, rfl⟩) | ⟨col, hc, row, hr, hlt, rfl⟩)
    · exact ⟨.East, (meshLink_of hc hr hlt hr).mpr ⟨rfl, rfl⟩, rfl⟩
    · exact ⟨.West, (meshLink_of hlt hr hc hr).mpr ⟨rfl, rfl⟩, rfl⟩
    · exact ⟨.North, (meshLink_of hc hr hc hlt).mpr ⟨rfl, rfl⟩, rfl⟩
    · exact ⟨.South, (meshLink_of hc hlt hc hr).mpr ⟨rfl, rfl⟩, rfl⟩
  · rintro ⟨d, ⟨hs, hd, h⟩, hl⟩
    obtain ⟨src, dst, so, di, la, we⟩ := l
    simp only [BasicIntLink.mk.injEq, true_and] at hl hs hd h
    obtain ⟨rfl, rfl, rfl, rfl⟩ := hl
    have hxs := x_lt (m := m) src
    have hxd := x_lt (m := m) dst
    have hys := y_lt hs
    have hyd := y_lt hd
    have hsrc := x_add_y (m := m) src
    have hdst := x_add_y (m := m) dst
    cases so <;> simp only [Adjacent] at h
    · refine .inl (.inl (.inl ⟨m.y src, hys, m.x src, hxs, by omega, ?_⟩))
      rw [hsrc, ← h.1, ← h.2, hdst]
      rfl
    · refine .inl (.inl (.inr ⟨m.y dst, hyd, m.x dst, hxd, by omega, ?_⟩))
      rw [hdst, ← h.1, h.2, hsrc]
      rfl
    · refine .inl (.inr ⟨m.x src, hxs, m.y src, hys, by omega, ?_⟩)
      rw [hsrc, ← h.2, ← h.1, hdst]
      rfl
    · refine .inr ⟨m.x dst, hxd, m.y dst, hyd, by omega, ?_⟩
      rw [hdst, ← h.2, h.1, hsrc]
      rfl

end MeshSize

/-- `Mesh_XY.makeTopology`. -/
def Mesh_XY (m : MeshSize) (link_latency : ℕ) : Topology where
  m_nodes := m.nodes.length
  m_number_of_switches := m.num_routers
  m_ext_link_vector := m.ext_links link_latency
  m_int_link_vector := m.int_links link_latency
  ext_nodes := by
    have h : (m.ext_links link_latency).map BasicExtLink.ext_node = m.nodes := by
      simp only [MeshSize.ext_links, map_map, Function.comp_def]
      exact zipIdx_map_fst 0 m.nodes
    rw [h]
    exact m.nodes_perm
  ext_routers := by
    intro l hl
    obtain ⟨ni, -, rfl⟩ := mem_map.mp hl
    simp only [MeshSize.routerOf]
    split
    · exact Nat.mod_lt _ MeshSize.num_routers_pos
    · exact MeshSize.num_routers_pos
  ext_weights := by
    intro l hl
    obtain ⟨ni, -, rfl⟩ := mem_map.mp hl
    exact ⟨Nat.one_pos, (by decide : (1 : ℕ) ≠ 10000)⟩
  int_routers := by
    intro l hl
    obtain ⟨d, ⟨hs, hd, -⟩, -⟩ := MeshSize.mem_int_links.mp hl
    exact ⟨hs, hd⟩

/-- Two rows of two routers, with one node each. -/
def MeshSize.twoByTwo : MeshSize where
  num_rows := 2
  num_columns := 2
  nodes := [0, 1, 2, 3]
  rows_pos := by decide
  columns_pos := by decide
  nodes_perm := by decide

/-- Three rows of three routers. -/
def MeshSize.threeByThree : MeshSize := ⟨3, 3, [0], Nat.succ_pos 2, Nat.succ_pos 2, by decide⟩

/-! ## The map from directions to ports -/

theorem lastIndexOf_snoc (d x : PortDirection) (l : List PortDirection) :
    lastIndexOf d (l ++ [x]) = if x = d then some l.length else lastIndexOf d l := by
  simp [lastIndexOf, zipIdx_append, foldl_append]

/-- A stored port number is the number of a port in the direction, and a direction that has
a port is stored. -/
theorem lastIndexOf_spec (d : PortDirection) (l : List PortDirection) :
    (∀ k, lastIndexOf d l = some k → l[k]? = some d) ∧ (d ∈ l → ∃ k, lastIndexOf d l = some k) := by
  induction l using reverseRecOn with
  | nil => simp [lastIndexOf]
  | append_singleton l x ih =>
    rw [lastIndexOf_snoc]
    by_cases hx : x = d
    · subst hx
      simp
    · simp only [hx, if_false, mem_append, mem_singleton, Ne.symm hx, or_false]
      refine ⟨fun k hk => ?_, ih.2⟩
      have := ih.1 k hk
      rw [List.getElem?_append_left (List.getElem?_eq_some_iff.mp this).1]
      exact this

theorem m_outports_dirn2idx_eq {net : GarnetNetwork} {r o : ℕ} {q : OutPort}
    (h : (net.m_output_unit r)[o]? = some q)
    (huniq : ∀ (o' : ℕ) (q' : OutPort), (net.m_output_unit r)[o']? = some q' →
      q'.m_direction = q.m_direction → o' = o) :
    m_outports_dirn2idx net r q.m_direction = o := by
  obtain ⟨hget, hsome⟩ := lastIndexOf_spec q.m_direction
    ((net.m_output_unit r).map OutPort.m_direction)
  obtain ⟨k, hk⟩ := hsome (mem_map_of_mem (mem_of_getElem? h))
  have hkq := hget k hk
  rw [getElem?_map, Option.map_eq_some_iff] at hkq
  obtain ⟨q', hq', hdir⟩ := hkq
  rw [m_outports_dirn2idx, hk, Option.getD_some]
  exact huniq k q' hq' hdir

/-! ## The wiring of a mesh -/

section MeshNetwork

variable {m : MeshSize} {lat : ℕ} {p : Params} {shape : 0 < p.num_rows →
  p.num_rows * ((Mesh_XY m lat).m_number_of_switches / p.num_rows)
    = (Mesh_XY m lat).m_number_of_switches}

theorem mesh_link_map {e : LinkEntry} :
    (Mesh_XY m lat).m_link_map (r + 2 * m.nodes.length, r' + 2 * m.nodes.length) = some e ↔
      ∃ d, m.MeshLink r r' d ∧ e = ⟨lat, MeshSize.weightOf d, d, MeshSize.opposite d⟩ := by
  have key : ∀ e, ((r + 2 * m.nodes.length, r' + 2 * m.nodes.length), e)
      ∈ (Mesh_XY m lat).addLinkCalls ↔
      ∃ d, m.MeshLink r r' d ∧ e = ⟨lat, MeshSize.weightOf d, d, MeshSize.opposite d⟩ := by
    intro e
    rw [mem_addLinkCalls]
    constructor
    · rintro (⟨l, hl, heq, -⟩ | ⟨l, hl, heq, -⟩ | ⟨l, hl, heq, rfl⟩) <;>
        simp only [Prod.mk.injEq] at heq
      · have := ext_node_lt hl
        have hN : (Mesh_XY m lat).m_nodes = m.nodes.length := rfl
        omega
      · have := ext_node_lt hl
        have hN : (Mesh_XY m lat).m_nodes = m.nodes.length := rfl
        omega
      · obtain ⟨d, hd, heql⟩ := MeshSize.mem_int_links.mp hl
        have hN : (Mesh_XY m lat).m_nodes = m.nodes.length := rfl
        obtain rfl : r = l.src_node := by omega
        obtain rfl : r' = l.dst_node := by omega
        refine ⟨d, hd, ?_⟩
        rw [heql]
    · rintro ⟨d, hd, rfl⟩
      exact .inr (.inr ⟨⟨r, r', d, MeshSize.opposite d, lat, MeshSize.weightOf d⟩,
        MeshSize.mem_int_links.mpr ⟨d, hd, rfl⟩, rfl, rfl⟩)
  constructor
  · exact fun h => (key e).mp (mem_addLinkCalls_of_m_link_map h)
  · rintro ⟨d, hd, rfl⟩
    obtain ⟨e', he', hmem⟩ := exists_m_link_map_of_mem ((key _).mpr ⟨d, hd, rfl⟩)
    obtain ⟨d', hd', rfl⟩ := (key e').mp hmem
    rw [he', hd.dirn_unique hd']

variable (lat) in
theorem mesh_madeLink (h : m.MeshLink r r' d) :
    (r + 2 * m.nodes.length, r' + 2 * m.nodes.length) ∈ (Mesh_XY m lat).madeLinks := by
  exact mem_madeLinks_of_entry (mesh_link_map.mpr ⟨d, h, rfl⟩) (MeshSize.weightOf_makes d)

/-- The output ports of a mesh router: the `Local` ones, and one for each neighbour. -/
theorem mesh_outport_cases {r o : ℕ} {q : OutPort}
    (h : (((Mesh_XY m lat).network p shape).m_output_unit r)[o]? = some q) :
    (q.m_direction = .Local ∧ ∃ n < m.nodes.length,
        ((Mesh_XY m lat).network p shape).linkConsumer q.m_out_link = some (.ni n))
      ∨ ∃ r', m.MeshLink r r' q.m_direction
        ∧ ((Mesh_XY m lat).network p shape).linkConsumer q.m_out_link = some (.router r')
        ∧ q.m_weight_table = MeshSize.weightOf q.m_direction
        ∧ (Mesh_XY m lat).madeLinks[q.m_out_link]?
          = some (r + 2 * m.nodes.length, r' + 2 * m.nodes.length) := by
  refine (outport_cases h).imp_right ?_
  rintro ⟨r', e, he, hdir, hweight, hcons, hl⟩
  obtain ⟨d, hd, rfl⟩ := mesh_link_map.mp he
  rw [hdir]
  exact ⟨r', hd, hcons, hweight, hl⟩

theorem mesh_outport_unique {r o o' : ℕ} {q q' : OutPort}
    (h : (((Mesh_XY m lat).network p shape).m_output_unit r)[o]? = some q)
    (h' : (((Mesh_XY m lat).network p shape).m_output_unit r)[o']? = some q')
    (hdir : q'.m_direction = q.m_direction) (hlocal : q.m_direction ≠ .Local) : o' = o := by
  rcases mesh_outport_cases h with ⟨hl, -⟩ | ⟨r1, h1, -, -, hm1⟩
  · exact absurd hl hlocal
  rcases mesh_outport_cases h' with ⟨hl, -⟩ | ⟨r2, h2, -, -, hm2⟩
  · exact absurd (hdir ▸ hl) hlocal
  rw [hdir] at h2
  rw [h1.neighbour_unique h2, ← hm2] at hm1
  exact outport_unique h h' hm1.symm

variable (shape) in
/-- **The port to a neighbour** is the one the direction map names. -/
theorem mesh_outport (h : m.MeshLink r r' d) :
    ∃ q, (((Mesh_XY m lat).network p shape).m_output_unit r)[m_outports_dirn2idx
        ((Mesh_XY m lat).network p shape) r d]? = some q ∧ q.m_direction = d
      ∧ q.m_weight_table = MeshSize.weightOf d
      ∧ ((Mesh_XY m lat).network p shape).linkConsumer q.m_out_link = some (.router r') := by
  obtain ⟨o, q, ho, rfl, hw, hcons⟩ := exists_outport_to shape (mesh_link_map.mpr ⟨d, h, rfl⟩)
    (MeshSize.weightOf_makes d)
  have hlocal : q.m_direction ≠ .Local := by
    intro hd
    rw [hd] at h
    exact h.2.2
  refine ⟨q, ?_, rfl, hw, hcons⟩
  rw [m_outports_dirn2idx_eq ho (fun o' q' h' hdir => mesh_outport_unique ho h' hdir hlocal)]
  exact ho

/-! ## Hop counts -/

/-- Where a packet for router `dest` is going from router `r`. -/
def MeshSize.hops (m : MeshSize) (r dest : ℕ) : Hops where
  x_hops := ((m.x dest : ℤ) - m.x r).natAbs
  y_hops := ((m.y dest : ℤ) - m.y r).natAbs
  x_dirn := decide (m.x r ≤ m.x dest)
  y_dirn := decide (m.y r ≤ m.y dest)

namespace MeshSize

theorem dirnXY_hops (r dest : ℕ) : (m.hops r dest).dirnXY =
    if m.x r < m.x dest then .East else if m.x dest < m.x r then .West
    else if m.y r ≤ m.y dest then .North else .South := by
  simp only [hops, Hops.dirnXY, decide_eq_true_eq]
  split_ifs <;> first | rfl | omega

theorem productive_dirnXY {r dest : ℕ} (hne : dest ≠ r) :
    m.Productive r dest (m.hops r dest).dirnXY := by
  rw [dirnXY_hops]
  split_ifs with h1 h2 h3
  · exact h1
  · exact h2
  · refine lt_of_le_of_ne h3 (fun h => hne ?_)
    exact eq_of_x_y (by omega) h.symm
  · exact not_le.mp h3

end MeshSize

theorem num_cols_of_shape {net : GarnetNetwork} (hn : net.num_routers = m.num_routers)
    (hrows : net.num_rows = m.num_rows) :
    net.m_num_rows = m.num_rows ∧ net.m_num_cols = m.num_columns := by
  have hpos : 0 < net.num_rows := by
    rw [hrows]
    exact_mod_cast m.rows_pos
  constructor
  · rw [GarnetNetwork.m_num_rows, if_pos hpos]
    exact hrows
  · rw [GarnetNetwork.m_num_cols, if_pos hpos, hn, hrows, MeshSize.num_routers]
    push_cast
    exact Int.mul_ediv_cancel_left _ (by have := m.rows_pos; omega)

/-- What the direction based functions see in a network with the routers of a mesh. -/
theorem hopsTo_of_shape {net : GarnetNetwork} (hn : net.num_routers = m.num_routers)
    (hrows : net.num_rows = m.num_rows) {r : ℕ} {route : RouteInfo}
    (hne : route.dest_router ≠ r) : hopsTo net r route = .ok (m.hops r route.dest_router) := by
  obtain ⟨hr, hc⟩ := num_cols_of_shape hn hrows
  have hxy : ¬ (m.x route.dest_router = m.x r ∧ m.y route.dest_router = m.y r) :=
    fun h => hne (MeshSize.eq_of_x_y h.1 h.2)
  have hpos : (0 : ℤ) < m.num_rows ∧ (0 : ℤ) < m.num_columns :=
    ⟨by exact_mod_cast m.rows_pos, by exact_mod_cast m.columns_pos⟩
  have hx : ∀ k : ℕ, (k : ℤ) % m.num_columns = (m.x k : ℤ) := fun k => by simp [MeshSize.x]
  have hy : ∀ k : ℕ, (k : ℤ) / m.num_columns = (m.y k : ℤ) := fun k => by simp [MeshSize.y]
  simp only [hopsTo, hr, hc, hx, hy, hpos.1, hpos.2, decide_true, Bool.and_self, assert_true,
    MeshSize.hops, bind, Except.bind]
  rw [show (!(decide (((m.x route.dest_router : ℤ) - m.x r).natAbs = 0)
    && decide (((m.y route.dest_router : ℤ) - m.y r).natAbs = 0))) = true by
      simp only [Bool.not_eq_true', Bool.and_eq_false_iff, decide_eq_false_iff_not]
      omega]
  simp [pure, Except.pure]

variable (shape) in
theorem mesh_num_cols (hrows : p.num_rows = m.num_rows) :
    ((Mesh_XY m lat).network p shape).m_num_rows = m.num_rows
      ∧ ((Mesh_XY m lat).network p shape).m_num_cols = m.num_columns :=
  num_cols_of_shape rfl hrows

theorem mesh_hopsTo (hrows : p.num_rows = m.num_rows) {r : ℕ} {route : RouteInfo}
    (hne : route.dest_router ≠ r) :
    hopsTo ((Mesh_XY m lat).network p shape) r route = .ok (m.hops r route.dest_router) :=
  hopsTo_of_shape rfl hrows hne

end MeshNetwork

/-- One router with two nodes. -/
def MeshSize.pair : MeshSize := ⟨1, 1, [0, 1], Nat.one_pos, Nat.one_pos, by decide⟩

/-- The smallest network the examples run on. -/
def pairNet : GarnetNetwork := (Mesh_XY .pair 1).network (.default 1) (by decide)

end Bindu.Garnet
