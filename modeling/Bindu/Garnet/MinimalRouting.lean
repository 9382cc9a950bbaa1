/-
The direction based routing functions take shortest paths in a mesh.

A direction is productive when it leads to a neighbour that is one hop nearer to the
destination. XY, random and west-first routing only return ports of productive directions,
so the number of hops of a packet is the Manhattan distance, whatever `random()` returns.
The adaptive functions choose between the same directions by the free virtual channels of
the neighbours; they find the neighbours with `get_RouterInDirn`, whose border check for
North takes the number of columns for the number of rows.

Sources: `garnet2.0/RoutingUnit.cc`, `GarnetNetwork::get_RouterInDirn`,
`Router::get_numFreeVC`.
-/
import Bindu.Garnet.ChannelDependency
import Bindu.Garnet.Torus

open Bindu.Lib List

namespace Bindu.Garnet

open MeshSize

/-! ## The Manhattan distance -/

variable {r dest : ℕ} {d : PortDirection}

namespace MeshSize

variable {m : MeshSize}

/-- The number of columns and rows between two routers. -/
def manhattan (m : MeshSize) (r dest : ℕ) : ℕ :=
  ((m.x dest : ℤ) - m.x r).natAbs + ((m.y dest : ℤ) - m.y r).natAbs

theorem manhattan_eq_zero : m.manhattan r dest = 0 ↔ r = dest := by
  constructor
  · intro h
    unfold manhattan at h
    exact eq_of_x_y (m := m) (by omega) (by omega)
  · rintro rfl
    simp [manhattan]

theorem MeshLink.manhattan {r r' dest : ℕ} (h : m.MeshLink r r' d)
    (hp : m.Productive r dest d) : m.manhattan r' dest + 1 = m.manhattan r dest := by
  obtain ⟨-, -, h⟩ := h
  cases d <;> simp only [Adjacent, Productive] at h hp <;>
    unfold manhattan <;> omega

/-- The horizontal direction towards a router in another column. -/
def dirnX (m : MeshSize) (r dest : ℕ) : PortDirection :=
  if m.x r ≤ m.x dest then .East else .West

/-- The vertical direction towards a router in another row. -/
def dirnY (m : MeshSize) (r dest : ℕ) : PortDirection :=
  if m.y r ≤ m.y dest then .North else .South

theorem productive_dirnX (h : m.x dest ≠ m.x r) :
    m.Productive r dest (m.dirnX r dest) := by
  unfold dirnX
  split_ifs <;> simp only [Productive] <;> omega

theorem productive_dirnY (h : m.y dest ≠ m.y r) :
    m.Productive r dest (m.dirnY r dest) := by
  unfold dirnY
  split_ifs <;> simp only [Productive] <;> omega

theorem x_hops_eq_zero : (m.hops r dest).x_hops = 0 ↔ m.x dest = m.x r := by
  simp only [hops]
  omega

theorem y_hops_eq_zero : (m.hops r dest).y_hops = 0 ↔ m.y dest = m.y r := by
  simp only [hops]
  omega

/-- How the functions write the two directions. -/
theorem dirnX_hops (r dest : ℕ) :
    (if (m.hops r dest).x_dirn then PortDirection.East else .West) = m.dirnX r dest := by
  simp only [hops, decide_eq_true_eq, dirnX]

theorem dirnY_hops (r dest : ℕ) :
    (if (m.hops r dest).y_dirn then PortDirection.North else .South) = m.dirnY r dest := by
  simp only [hops, decide_eq_true_eq, dirnY]

/-- The direction of random routing, in coordinates. -/
def dirnRandom (m : MeshSize) (r dest rand : ℕ) : PortDirection :=
  if m.x dest = m.x r then m.dirnY r dest
  else if m.y dest = m.y r then m.dirnX r dest
  else pick rand (m.dirnX r dest) (m.dirnY r dest)

theorem productive_dirnRandom (hne : dest ≠ r) (rand : ℕ) :
    m.Productive r dest (m.dirnRandom r dest rand) := by
  unfold dirnRandom pick
  split_ifs with hx hy hrand
  · exact productive_dirnY (fun hy => hne (eq_of_x_y hx hy))
  · exact productive_dirnX hx
  · exact productive_dirnX hx
  · exact productive_dirnY hy

end MeshSize

section MeshNetwork

variable {m : MeshSize} {lat : ℕ} {p : Params} {shape : 0 < p.num_rows →
  p.num_rows * ((Mesh_XY m lat).m_number_of_switches / p.num_rows)
    = (Mesh_XY m lat).m_number_of_switches}

/-! ## What the functions return -/

variable {route : RouteInfo}

theorem mesh_outportComputeXY (hrows : p.num_rows = m.num_rows) {r : ℕ}
    (hne : route.dest_router ≠ r) (s : NetState) :
    outportComputeXY ((Mesh_XY m lat).network p shape) s r route
      = .ok (m_outports_dirn2idx ((Mesh_XY m lat).network p shape) r
          (m.hops r route.dest_router).dirnXY, s) := by
  rw [outportComputeXY, mesh_hopsTo hrows hne]
  rfl

variable {s : NetState}

theorem mesh_outportComputeWestFirst (hrows : p.num_rows = m.num_rows) {r : ℕ}
    (hne : route.dest_router ≠ r) {rand : ℕ} {rest : List ℕ} (hrng : s.rng = rand :: rest) :
    outportComputeWestFirst ((Mesh_XY m lat).network p shape) s r route
      = .ok (m_outports_dirn2idx ((Mesh_XY m lat).network p shape) r
          ((m.hops r route.dest_router).dirnWestFirst rand), { s with rng := rest }) := by
  rw [outportComputeWestFirst, mesh_hopsTo hrows hne, ok_bind, NetState.random, hrng]
  rfl

/-- Random routing; it draws a number only between two productive directions. -/
theorem mesh_outportComputeRandom (hrows : p.num_rows = m.num_rows) {r : ℕ}
    (hne : route.dest_router ≠ r) {rand : ℕ} {rest : List ℕ} (hrng : s.rng = rand :: rest) :
    ∃ s', outportComputeRandom ((Mesh_XY m lat).network p shape) s r route
      = .ok (m_outports_dirn2idx ((Mesh_XY m lat).network p shape) r
          (m.dirnRandom r route.dest_router rand), s') := by
  rw [outportComputeRandom, mesh_hopsTo hrows hne, ok_bind]
  simp only [x_hops_eq_zero, y_hops_eq_zero, dirnRandom]
  by_cases h1 : m.x route.dest_router = m.x r
  · rw [if_pos h1, if_pos h1]
    exact ⟨s, by rw [dirnY_hops]; rfl⟩
  rw [if_neg h1, if_neg h1]
  by_cases h2 : m.y route.dest_router = m.y r
  · rw [if_pos h2, if_pos h2]
    exact ⟨s, by rw [dirnX_hops]; rfl⟩
  rw [if_neg h2, if_neg h2, NetState.random, hrng]
  refine ⟨{ s with rng := rest }, ?_⟩
  -- the four quadrants
  unfold dirnX dirnY
  by_cases hxd : m.x r ≤ m.x route.dest_router <;> by_cases hyd : m.y r ≤ m.y route.dest_router <;>
    simp only [hops, hxd, hyd, decide_true, decide_false, Bool.and_true, Bool.and_false,
      Bool.not_true, Bool.not_false, Bool.false_eq_true, if_true, if_false] <;> rfl

/-! ## Every hop is one hop nearer -/

/-- Router `r` has an output port `o`, and its link leads to a router one hop nearer to
`dest`. -/
def MinimalPort (m : MeshSize) (net : GarnetNetwork) (r dest o : ℕ) : Prop :=
  ∃ q r', (net.m_output_unit r)[o]? = some q
    ∧ net.linkConsumer q.m_out_link = some (.router r') ∧ r' < m.num_routers
    ∧ m.manhattan r' dest + 1 = m.manhattan r dest

variable (shape) in
theorem minimalPort_of_productive (h : m.Productive r dest d)
    (hr : r < m.num_routers) (hdest : dest < m.num_routers) :
    MinimalPort m ((Mesh_XY m lat).network p shape) r dest
      (m_outports_dirn2idx ((Mesh_XY m lat).network p shape) r d) := by
  obtain ⟨r', hlink⟩ := h.exists_neighbour hr hdest
  obtain ⟨q, hq, -, -, hcons⟩ := mesh_outport shape hlink
  exact ⟨q, r', hq, hcons, hlink.2.1, hlink.manhattan h⟩

/-- The three functions that choose a direction without looking at the network. -/
def ObliviousRouting (f : RoutingFunction) : Prop :=
  f = outportComputeXY ∨ f = outportComputeRandom ∨ f = outportComputeWestFirst

variable (lat shape) in
theorem ObliviousRouting.minimalPort {f : RoutingFunction} (hf : ObliviousRouting f)
    (hrows : p.num_rows = m.num_rows) {r : ℕ} (hr : r < m.num_routers)
    (hdest : route.dest_router < m.num_routers) (hne : route.dest_router ≠ r) (hrng : s.rng ≠ []) :
    ∃ o s', f ((Mesh_XY m lat).network p shape) s r route = .ok (o, s')
      ∧ MinimalPort m ((Mesh_XY m lat).network p shape) r route.dest_router o := by
  obtain ⟨rand, rest, hrng⟩ := exists_cons_of_ne_nil hrng
  rcases hf with rfl | rfl | rfl
  · exact ⟨_, _, mesh_outportComputeXY hrows hne s,
      minimalPort_of_productive shape (productive_dirnXY hne) hr hdest⟩
  · obtain ⟨s', hs'⟩ := mesh_outportComputeRandom hrows hne hrng
    exact ⟨_, s', hs', minimalPort_of_productive shape (productive_dirnRandom hne rand) hr hdest⟩
  · exact ⟨_, _, mesh_outportComputeWestFirst hrows hne hrng,
      minimalPort_of_productive shape (westFirst_dirnWestFirst hne rand).1 hr hdest⟩

/-! ## Whole paths -/

/-- Where a packet is after a number of hops. Hop `k` is computed by function `f k` in state
`states k`. -/
def routeHops (f : ℕ → RoutingFunction) (net : GarnetNetwork) (route : RouteInfo)
    (states : ℕ → NetState) (start : ℕ) : ℕ → Except Fault ℕ
  | 0 => pure start
  | k + 1 => do
      let r ← routeHops f net route states start k
      let (o, _) ← f k net (states k) r route
      match net.linkConsumer (net.outLink r o) with
      | some (.router r') => pure r'
      | _ => throw .no_outport

/-- **One hop of a path.** As long as the packet has not arrived it gets one hop nearer. -/
theorem routeHops_succ {f : ℕ → RoutingFunction} (hf : ∀ k, ObliviousRouting (f k))
    (hrows : p.num_rows = m.num_rows)
    (hdest : route.dest_router < m.num_routers) {states : ℕ → NetState}
    (hrng : ∀ k, (states k).rng ≠ []) {start k r : ℕ}
    (h : routeHops f ((Mesh_XY m lat).network p shape) route states start k = .ok r)
    (hr : r < m.num_routers) (hne : route.dest_router ≠ r) :
    ∃ r', routeHops f ((Mesh_XY m lat).network p shape) route states start (k + 1) = .ok r'
      ∧ r' < m.num_routers
      ∧ m.manhattan r' route.dest_router + 1 = m.manhattan r route.dest_router := by
  obtain ⟨o, s', hfo, q, r', hq, hcons, hr', hnear⟩ :=
    (hf k).minimalPort lat shape hrows hr hdest hne (hrng k)
  refine ⟨r', ?_, hr', hnear⟩
  have hout : ((Mesh_XY m lat).network p shape).outLink r o = q.m_out_link := by
    simp only [GarnetNetwork.outLink, hq]
  rw [routeHops, h, ok_bind, hfo, ok_bind]
  simp only [hout, hcons]
  rfl

theorem routeHops_spec {f : ℕ → RoutingFunction} (hf : ∀ k, ObliviousRouting (f k))
    (hrows : p.num_rows = m.num_rows)
    (hdest : route.dest_router < m.num_routers) {states : ℕ → NetState}
    (hrng : ∀ k, (states k).rng ≠ []) {start : ℕ} (hstart : start < m.num_routers) (k : ℕ)
    (hk : k ≤ m.manhattan start route.dest_router) :
    ∃ r, routeHops f ((Mesh_XY m lat).network p shape) route states start k = .ok r
      ∧ r < m.num_routers
      ∧ m.manhattan r route.dest_router + k = m.manhattan start route.dest_router := by
  induction k with
  | zero => exact ⟨start, rfl, hstart, Nat.add_zero _⟩
  | succ k ih =>
    obtain ⟨r, hpath, hr, hdist⟩ := ih (by omega)
    have hne : route.dest_router ≠ r := by
      rintro heq
      have := (manhattan_eq_zero (m := m)).mpr heq.symm
      omega
    obtain ⟨r', hpath', hr', hnear⟩ := routeHops_succ hf hrows hdest hrng hpath hr hne
    exact ⟨r', hpath', hr', by omega⟩

/-- **XY, random and west-first routing are minimal.** In every mesh, at every router, for
every other router as destination and whatever `random()` returns: each of the three
functions returns an existing output port whose link leads one hop nearer to the
destination. A packet routed by them, with any of the three at each hop, is at its
destination after as many hops as there are columns and rows between the two routers, and
not before. -/
theorem mesh_routing_minimal (m : MeshSize) (lat : ℕ) (p : Params) (shape)
    (hrows : p.num_rows = m.num_rows) (route : RouteInfo)
    (hdest : route.dest_router < m.num_routers) (r : ℕ) (hr : r < m.num_routers) :
    (∀ f, ObliviousRouting f → ∀ s : NetState, s.rng ≠ [] → route.dest_router ≠ r →
      ∃ o s', f ((Mesh_XY m lat).network p shape) s r route = .ok (o, s')
        ∧ MinimalPort m ((Mesh_XY m lat).network p shape) r route.dest_router o)
    ∧ ∀ f : ℕ → RoutingFunction, (∀ k, ObliviousRouting (f k)) →
      ∀ states : ℕ → NetState, (∀ k, (states k).rng ≠ []) →
      ∀ k ≤ m.manhattan r route.dest_router,
        ∃ r', routeHops f ((Mesh_XY m lat).network p shape) route states r k = .ok r'
          ∧ (r' = route.dest_router ↔ k = m.manhattan r route.dest_router) := by
  constructor
  · intro f hf s hrng hne
    exact hf.minimalPort lat shape hrows hr hdest hne hrng
  · intro f hf states hrng k hk
    obtain ⟨r', hpath, -, hdist⟩ := routeHops_spec hf hrows hdest hrng hr k hk
    refine ⟨r', hpath, ?_⟩
    rw [← manhattan_eq_zero (m := m)]
    omega

/-- From router 0 to router 3 of the two by two mesh, west-first routing takes two hops. -/
theorem mesh_routing_minimal_twoByTwo :
    ∃ r', routeHops (fun _ => outportComputeWestFirst)
        ((Mesh_XY .twoByTwo 1).network (.default 2) (by decide)) ⟨0, {3}, 0, 0, 3, 3, -1⟩
        (fun _ => ((Mesh_XY .twoByTwo 1).network (.default 2) (by decide)).init
          (fun _ _ => none) (fun _ _ => none) [1]) 0 2 = .ok r'
      ∧ (r' = 3 ↔ 2 = twoByTwo.manhattan 0 3) :=
  (mesh_routing_minimal .twoByTwo 1 (.default 2) (by decide) rfl ⟨0, {3}, 0, 0, 3, 3, -1⟩
    (by decide) 0 (by decide)).2 _ (fun _ => .inr (.inr rfl)) _
    (fun _ => cons_ne_nil _ _) 2 (by decide)

/-! ## The neighbours that adaptive routing asks -/

theorem MeshSize.x_of_east_border {r j : ℕ}
    (h : r = m.num_columns - 1 + j * m.num_columns) : m.x r = m.num_columns - 1 := by
  have := m.columns_pos
  rw [h]
  exact x_of (by omega)

/-- **`get_RouterInDirn` in a mesh.** It finds the neighbour, except that it refuses to look
North from row `num_columns - 1` on, which is the last row in a square mesh only. -/
theorem mesh_get_RouterInDirn (hrows : p.num_rows = m.num_rows) {r r' : ℕ} (h : m.MeshLink r r' d) :
    get_RouterInDirn ((Mesh_XY m lat).network p shape) d r
      = if d = .North ∧ (m.num_columns - 1) * m.num_columns ≤ r then .error .router_in_dirn
        else .ok r' := by
  obtain ⟨-, hc⟩ := mesh_num_cols shape hrows
  obtain ⟨heast, hwest, hnorth, hsouth⟩ := h.router_id
  have hn : ((Mesh_XY m lat).network p shape).num_routers = m.num_routers := rfl
  obtain ⟨hr, hr', hadj⟩ := h
  have hpos := m.columns_pos
  -- once the number is that of a router, the last check passes
  have hlast : ∀ k : ℤ, k = (r' : ℤ) →
      ((assert (!(decide (k < 0) || decide (k ≥ m.num_routers))) .router_in_dirn >>=
        fun _ => pure k.toNat : Except Fault ℕ)) = .ok r' := by
    rintro k rfl
    have h1 : ¬ ((r' : ℤ) < 0) := by omega
    have h2 : ¬ ((r' : ℤ) ≥ m.num_routers) := by omega
    simp only [h1, h2, decide_false, Bool.or_false, Bool.not_false, assert_true, ok_bind,
      Int.toNat_natCast]
    rfl
  cases d <;> simp only [Adjacent] at hadj <;>
    simp only [get_RouterInDirn, downstreamId, hc, hn]
  · -- East: no router of the last column has a neighbour
    rw [if_neg (by simp)]
    have hall : ((range m.num_routers).all (fun j =>
        !(decide ((m.num_columns : ℤ) - 1 + j * m.num_columns < m.num_routers)
          && decide ((r : ℤ) = m.num_columns - 1 + j * m.num_columns)))) = true := by
      rw [all_eq_true]
      intro j _
      simp only [Bool.not_eq_true', Bool.and_eq_false_iff, decide_eq_false_iff_not]
      right
      intro hj
      have hlast := x_of_east_border (m := m) (by zify [hpos]; omega)
      have := x_lt (m := m) r'
      omega
    simp only [hall, assert_true, ok_bind, pure_bind]
    exact hlast _ (by rw [heast rfl]; push_cast; rfl)
  · -- West
    rw [if_neg (by simp)]
    have hall : ((range m.num_routers).all (fun j =>
        !(decide ((j : ℤ) * m.num_columns < m.num_routers)
          && decide ((r : ℤ) = j * m.num_columns)))) = true := by
      rw [all_eq_true]
      intro j _
      simp only [Bool.not_eq_true', Bool.and_eq_false_iff, decide_eq_false_iff_not]
      right
      intro hj
      have hx : m.x r = 0 := by
        have hrj : r = 0 + j * m.num_columns := by zify; omega
        rw [hrj]
        exact x_of hpos
      omega
    simp only [hall, assert_true, ok_bind, pure_bind]
    exact hlast _ (by rw [hwest rfl]; push_cast; ring)
  · -- North
    have hcast : ((m.num_columns : ℤ) - 1) * m.num_columns ≤ r
        ↔ (m.num_columns - 1) * m.num_columns ≤ r := by
      zify [hpos]
    by_cases href : (m.num_columns - 1) * m.num_columns ≤ r
    · rw [if_pos ⟨trivial, href⟩]
      simp only [hcast.mpr href, hr, decide_true, Bool.and_self, Bool.not_true, assert_false,
        error_bind]
    · rw [if_neg (by simp [href])]
      have hnot : ¬ (((m.num_columns : ℤ) - 1) * m.num_columns ≤ r) := fun h => href (hcast.mp h)
      simp only [hnot, decide_false, Bool.false_and, Bool.not_false, assert_true, ok_bind,
        pure_bind]
      exact hlast _ (by rw [hnorth rfl]; push_cast; rfl)
  · -- South
    rw [if_neg (by simp)]
    have hle : ¬ ((r : ℤ) < m.num_columns) := by
      have := hsouth rfl
      omega
    simp only [hle, decide_false, Bool.not_false, assert_true, ok_bind, pure_bind]
    exact hlast _ (by rw [hsouth rfl]; push_cast; ring)

/-- `get_numFreeVC` returns for a direction in which the router has an input port. -/
theorem get_numFreeVC_ok {net : GarnetNetwork} {r i : ℕ} (hd : d ≠ .Local)
    (hi : i < net.num_inports r) (hdir : net.getInportDirection r i = d) (s : NetState) :
    ∃ n, get_numFreeVC net s r d = .ok n := by
  have hget : (net.m_input_unit r)[i]? = some (net.m_input_unit r)[i] :=
    getElem?_eq_getElem hi
  have hmem : d ∈ (net.m_input_unit r).map InPort.m_direction := by
    rw [GarnetNetwork.getInportDirection, hget] at hdir
    rw [← hdir]
    exact mem_map_of_mem (getElem_mem hi)
  -- the map names a port in that direction, so both assertions hold
  obtain ⟨hlast, hsome⟩ := lastIndexOf_spec d ((net.m_input_unit r).map InPort.m_direction)
  obtain ⟨k, hk⟩ := hsome hmem
  have hport := hlast k hk
  rw [getElem?_map, Option.map_eq_some_iff] at hport
  obtain ⟨q, hq, hqd⟩ := hport
  have hidx : m_inports_dirn2idx net r d = k := by rw [m_inports_dirn2idx, hk, Option.getD_some]
  have hlt : k < net.num_inports r := (List.getElem?_eq_some_iff.mp hq).1
  have hkd : d = net.getInportDirection r k := by
    rw [GarnetNetwork.getInportDirection, hq]
    exact hqd.symm
  simp only [get_numFreeVC, ne_eq, hd, not_false_eq_true, decide_true, assert_true, hidx, hlt,
    ← hkd, ok_bind]
  exact ⟨_, rfl⟩

variable (lat shape) in
/-- The neighbour in a direction has an input port on the opposite side. -/
theorem mesh_get_numFreeVC {r r' : ℕ} (h : m.MeshLink r r' d) (s : NetState) :
    ∃ n, get_numFreeVC ((Mesh_XY m lat).network p shape) s r' (opposite d) = .ok n := by
  obtain ⟨i, hi, hdir⟩ := Topology.exists_inport_of_int_link shape
    (l := ⟨r, r', d, opposite d, lat, weightOf d⟩)
    (mem_int_links.mpr ⟨d, h, rfl⟩) (weightOf_makes d) (by
      intro l' hl' hs ht
      obtain ⟨d', hd', heq⟩ := mem_int_links.mp hl'
      rw [hs, ht] at hd' heq
      rw [heq, hd'.dirn_unique h])
  refine get_numFreeVC_ok ?_ hi hdir s
  obtain ⟨-, -, hadj⟩ := h
  cases d <;> simp only [Adjacent] at hadj <;> simp [opposite]

variable (lat shape) in
/-- The choice of the adaptive functions between two directions with neighbours: it stops
if `get_RouterInDirn` refuses to look North, and else picks one of the two. -/
theorem mesh_moreFree (rand : ℕ) (hrows : p.num_rows = m.num_rows) {r r1 r2 : ℕ}
    {a b : PortDirection}
    (ha : m.MeshLink r r1 a) (hb : m.MeshLink r r2 b) (haN : a ≠ .North) (s : NetState) :
    (b = .North ∧ (m.num_columns - 1) * m.num_columns ≤ r ∧
        moreFree ((Mesh_XY m lat).network p shape) s r rand a (opposite a) b
          (opposite b) = .error .router_in_dirn)
      ∨ ¬ (b = .North ∧ (m.num_columns - 1) * m.num_columns ≤ r) ∧ ∃ rand',
        moreFree ((Mesh_XY m lat).network p shape) s r rand a (opposite a) b
          (opposite b) = .ok (pick rand' a b) := by
  obtain ⟨n1, h1⟩ := mesh_get_numFreeVC lat shape ha s
  obtain ⟨n2, h2⟩ := mesh_get_numFreeVC lat shape hb s
  rw [moreFree, mesh_get_RouterInDirn hrows ha, if_neg (by simp [haN]), ok_bind,
    mesh_get_RouterInDirn hrows hb]
  by_cases href : b = .North ∧ (m.num_columns - 1) * m.num_columns ≤ r
  · rw [if_pos href]
    exact .inl ⟨href.1, href.2, rfl⟩
  · rw [if_neg href, ok_bind, h1, ok_bind, h2, ok_bind]
    refine .inr ⟨href, ?_⟩
    split_ifs
    · exact ⟨1, rfl⟩
    · exact ⟨0, rfl⟩
    · exact ⟨rand, rfl⟩

/-! ## Adaptive routing refines oblivious routing -/

/-- The four quadrants of `outportComputeAdaptRand`. -/
theorem quadrantDirn_hops (net : GarnetNetwork) (s : NetState) (r dest rand : ℕ) :
    quadrantDirn net s r rand (m.hops r dest)
      = moreFree net s r rand (m.dirnX r dest) (opposite (m.dirnX r dest))
          (m.dirnY r dest) (opposite (m.dirnY r dest)) := by
  unfold quadrantDirn dirnX dirnY
  by_cases hx : m.x r ≤ m.x dest <;> by_cases hy : m.y r ≤ m.y dest <;>
    simp only [hops, hx, hy, decide_true, decide_false, Bool.and_true, Bool.and_false,
      Bool.not_true, Bool.not_false, Bool.false_eq_true, if_true, if_false] <;> rfl

variable (lat shape) in
/-- The choice of the adaptive functions in a quadrant, with its border check. -/
theorem mesh_quadrant (rand : ℕ) (hrows : p.num_rows = m.num_rows)
    (hr : r < m.num_routers) (hdest : dest < m.num_routers) (hx : m.x dest ≠ m.x r)
    (hy : m.y dest ≠ m.y r) (s : NetState) :
    (m.y r < m.y dest ∧ (m.num_columns - 1) * m.num_columns ≤ r ∧
        quadrantDirn ((Mesh_XY m lat).network p shape) s r rand (m.hops r dest)
          = .error .router_in_dirn)
      ∨ ¬ (m.y r < m.y dest ∧ (m.num_columns - 1) * m.num_columns ≤ r) ∧ ∃ rand',
        quadrantDirn ((Mesh_XY m lat).network p shape) s r rand (m.hops r dest)
          = .ok (pick rand' (m.dirnX r dest) (m.dirnY r dest)) := by
  obtain ⟨r1, h1⟩ := (productive_dirnX hx).exists_neighbour hr hdest
  obtain ⟨r2, h2⟩ := (productive_dirnY hy).exists_neighbour hr hdest
  have hnorth : m.dirnY r dest = .North ↔ m.y r < m.y dest := by
    unfold dirnY
    split_ifs with h
    · simp only [true_iff]
      omega
    · simp only [false_iff]
      omega
  have hX : m.dirnX r dest ≠ .North := by
    unfold dirnX
    split_ifs <;> simp
  have h := mesh_moreFree lat shape rand hrows h1 h2 hX s
  rw [hnorth] at h
  rw [quadrantDirn_hops]
  exact h

variable (lat shape) in
/-- **`outportComputeAdaptRand` in a mesh.** It stops at the border check, or returns a port
that random routing may return. -/
theorem mesh_outportComputeAdaptRand (hrows : p.num_rows = m.num_rows) {r : ℕ}
    (hr : r < m.num_routers) (hdest : route.dest_router < m.num_routers)
    (hne : route.dest_router ≠ r) (hrng : s.rng ≠ []) :
    let net := (Mesh_XY m lat).network p shape
    let refused := m.x route.dest_router ≠ m.x r ∧ m.y r < m.y route.dest_router
      ∧ (m.num_columns - 1) * m.num_columns ≤ r
    (refused ∧ outportComputeAdaptRand net s r route = .error .router_in_dirn)
      ∨ ¬ refused ∧ ∃ rand' s', outportComputeAdaptRand net s r route
        = .ok (m_outports_dirn2idx net r (m.dirnRandom r route.dest_router rand'), s') := by
  obtain ⟨rand, rest, hrng⟩ := exists_cons_of_ne_nil hrng
  intro net refused
  rw [outportComputeAdaptRand, mesh_hopsTo hrows hne, ok_bind]
  simp only [x_hops_eq_zero, y_hops_eq_zero, dirnX_hops, dirnY_hops, dirnRandom]
  by_cases h1 : m.x route.dest_router = m.x r
  · simp only [if_pos h1]
    exact .inr ⟨fun h => h.1 h1, 0, s, rfl⟩
  by_cases h2 : m.y route.dest_router = m.y r
  · simp only [if_neg h1, if_pos h2]
    exact .inr ⟨fun h => by have := h.2.1; omega, 0, s, rfl⟩
  simp only [if_neg h1, if_neg h2, NetState.random, hrng]
  rw [pure_bind]
  rcases mesh_quadrant lat shape rand hrows hr hdest h1 h2
    { s with rng := rest } with ⟨hy, hrow, herr⟩ | ⟨hnot, rand', hok⟩
  · refine .inl ⟨⟨h1, hy, hrow⟩, ?_⟩
    rw [herr]
    rfl
  · refine .inr ⟨fun h => hnot h.2, rand', { s with rng := rest }, ?_⟩
    rw [hok]
    rfl

variable (lat shape) in
/-- **`outportComputeAdaptWestFirst` in a mesh.** Like the random one, but West comes first
and without a look at the neighbours. -/
theorem mesh_outportComputeAdaptWestFirst (hrows : p.num_rows = m.num_rows) {r : ℕ}
    (hr : r < m.num_routers) (hdest : route.dest_router < m.num_routers)
    (hne : route.dest_router ≠ r) (hrng : s.rng ≠ []) :
    let net := (Mesh_XY m lat).network p shape
    let refused := m.x r < m.x route.dest_router ∧ m.y r < m.y route.dest_router
      ∧ (m.num_columns - 1) * m.num_columns ≤ r
    (refused ∧ outportComputeAdaptWestFirst net s r route = .error .router_in_dirn)
      ∨ ¬ refused ∧ ∃ rand' s', outportComputeAdaptWestFirst net s r route
        = .ok (m_outports_dirn2idx net r
            ((m.hops r route.dest_router).dirnWestFirst rand'), s') := by
  obtain ⟨rand, rest, hrng⟩ := exists_cons_of_ne_nil hrng
  intro net refused
  rw [outportComputeAdaptWestFirst, mesh_hopsTo hrows hne, ok_bind, NetState.random, hrng,
    pure_bind]
  unfold adaptWestFirstDirn Hops.dirnWestFirst
  simp only [x_hops_eq_zero, y_hops_eq_zero, dirnX_hops, dirnY_hops]
  by_cases h1 : m.x route.dest_router = m.x r
  · simp only [if_pos h1]
    exact .inr ⟨fun h => by have := h.1; omega, 0, _, rfl⟩
  by_cases h2 : m.y route.dest_router = m.y r
  · simp only [if_neg h1, if_pos h2]
    exact .inr ⟨fun h => by have := h.2.1; omega, 0, _, rfl⟩
  simp only [if_neg h1, if_neg h2]
  by_cases h3 : m.x r ≤ m.x route.dest_router
  · -- to the East the choice is that of the quadrants
    have hx : (m.hops r route.dest_router).x_dirn = true := decide_eq_true h3
    have hquad := mesh_quadrant lat shape rand hrows hr hdest h1 h2
      { s with rng := rest }
    simp only [quadrantDirn, hx, Bool.true_and, Bool.not_true, Bool.false_and, Bool.false_eq_true,
      if_false] at hquad ⊢
    have hdirn : ∀ rand', (if (m.hops r route.dest_router).y_dirn = true then
        pick rand' .East .North else pick rand' .East .South)
          = pick rand' (m.dirnX r route.dest_router) (m.dirnY r route.dest_router) := by
      intro rand'
      rw [← dirnX_hops, ← dirnY_hops, if_pos hx]
      split_ifs <;> rfl
    simp only [hdirn]
    rcases hquad with ⟨hy, hrow, herr⟩ | ⟨hnot, rand', hok⟩
    · refine .inl ⟨⟨by omega, hy, hrow⟩, ?_⟩
      rw [herr]
      rfl
    · refine .inr ⟨fun h => hnot h.2, rand', { s with rng := rest }, ?_⟩
      rw [hok]
      rfl
  · have hx : (m.hops r route.dest_router).x_dirn = false := decide_eq_false h3
    simp only [hx, Bool.not_false, if_true]
    exact .inr ⟨fun h => by have := h.1; omega, 0, _, rfl⟩

/-- **When adaptive routing refines oblivious routing.** In every mesh, at every router, for
every other router as destination, every random number and every occupancy of the virtual
channels: `outportComputeAdaptRand` returns, and returns a port that `outportComputeRandom`
returns for some random number, exactly if the packet does not have to go North and to
another column from row `num_columns - 1` or a later one; and likewise
`outportComputeAdaptWestFirst` and `outportComputeWestFirst`, for a packet that has to go
North and East. -/
theorem adaptive_refines_oblivious (m : MeshSize) (lat : ℕ) (p : Params) (shape)
    (hrows : p.num_rows = m.num_rows) (route : RouteInfo)
    (hdest : route.dest_router < m.num_routers) (r : ℕ) (hr : r < m.num_routers)
    (hne : route.dest_router ≠ r) (s : NetState) (hrng : s.rng ≠ []) :
    ((∃ o s', outportComputeAdaptRand ((Mesh_XY m lat).network p shape) s r route = .ok (o, s')
        ∧ ∃ bit s'', outportComputeRandom ((Mesh_XY m lat).network p shape)
          { s with rng := [bit] } r route = .ok (o, s''))
      ↔ ¬ (m.x route.dest_router ≠ m.x r ∧ m.y r < m.y route.dest_router
        ∧ (m.num_columns - 1) * m.num_columns ≤ r))
    ∧ ((∃ o s', outportComputeAdaptWestFirst ((Mesh_XY m lat).network p shape) s r route
          = .ok (o, s')
        ∧ ∃ bit s'', outportComputeWestFirst ((Mesh_XY m lat).network p shape)
          { s with rng := [bit] } r route = .ok (o, s''))
      ↔ ¬ (m.x r < m.x route.dest_router ∧ m.y r < m.y route.dest_router
        ∧ (m.num_columns - 1) * m.num_columns ≤ r)) := by
  constructor
  · rcases mesh_outportComputeAdaptRand lat shape hrows hr hdest hne hrng with
      ⟨href, herr⟩ | ⟨hnot, rand', s', hok⟩
    · refine ⟨?_, fun h => absurd href h⟩
      rintro ⟨o, s', hok, -⟩
      rw [herr] at hok
      simp at hok
    · refine ⟨fun _ => hnot, fun _ => ⟨_, s', hok, rand', ?_⟩⟩
      exact mesh_outportComputeRandom hrows hne rfl
  · rcases mesh_outportComputeAdaptWestFirst lat shape hrows hr hdest hne
      hrng with ⟨href, herr⟩ | ⟨hnot, rand', s', hok⟩
    · refine ⟨?_, fun h => absurd href h⟩
      rintro ⟨o, s', hok, -⟩
      rw [herr] at hok
      simp at hok
    · refine ⟨fun _ => hnot, fun _ => ⟨_, s', hok, rand', { s with rng := [] }, ?_⟩⟩
      exact mesh_outportComputeWestFirst hrows hne rfl

/-- Three rows of two routers. -/
def MeshSize.threeByTwo : MeshSize :=
  ⟨3, 2, [0], threeByThree.rows_pos, Nat.two_pos, threeByThree.nodes_perm⟩

/-- At router 0 of the mesh with three rows of two routers, for router 3, both adaptive
functions refine the oblivious ones. -/
theorem adaptive_refines_oblivious_threeByTwo :
    ∃ o s', outportComputeAdaptRand ((Mesh_XY .threeByTwo 1).network (.default 3) (by decide))
        (((Mesh_XY .threeByTwo 1).network (.default 3) (by decide)).init
          (fun _ _ => none) (fun _ _ => none) [0]) 0 ⟨0, {0}, 0, 0, 0, 3, -1⟩ = .ok (o, s')
      ∧ ∃ bit s'', outportComputeRandom ((Mesh_XY .threeByTwo 1).network (.default 3) (by decide))
        { ((Mesh_XY .threeByTwo 1).network (.default 3) (by decide)).init
          (fun _ _ => none) (fun _ _ => none) [0] with rng := [bit] } 0
        ⟨0, {0}, 0, 0, 0, 3, -1⟩ = .ok (o, s'') :=
  (adaptive_refines_oblivious .threeByTwo 1 (.default 3) (by decide) rfl
    ⟨0, {0}, 0, 0, 0, 3, -1⟩ (by decide) 0 (by decide) (by decide) _
    (cons_ne_nil _ _)).1.mpr (by decide)

/-- From router 2 of that mesh, which has a neighbour to the North, `get_RouterInDirn` does
not look North: a packet for router 5 stops the simulation. -/
theorem adaptive_refused_at_router_two :
    outportComputeAdaptRand ((Mesh_XY .threeByTwo 1).network (.default 3) (by decide))
        (((Mesh_XY .threeByTwo 1).network (.default 3) (by decide)).init
          (fun _ _ => none) (fun _ _ => none) [0]) 2 ⟨0, {0}, 0, 0, 0, 5, -1⟩
        = .error .router_in_dirn
      ∧ outportComputeAdaptWestFirst ((Mesh_XY .threeByTwo 1).network (.default 3) (by decide))
        (((Mesh_XY .threeByTwo 1).network (.default 3) (by decide)).init
          (fun _ _ => none) (fun _ _ => none) [0]) 2 ⟨0, {0}, 0, 0, 0, 5, -1⟩
        = .error .router_in_dirn :=
  ⟨rfl, rfl⟩

end MeshNetwork

end Bindu.Garnet
