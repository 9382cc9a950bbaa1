/-
XY routing on the torus.

`Topology::addLink` keeps one link for each pair of routers, the one added last. On a torus
with two columns the wrap-around links join the same routers as the ordinary ones: every
East link is overwritten by a West link, and no port is left under the name East. In the
same way two rows leave no port under the name North. `m_outports_dirn2idx` then yields
port 0. With three rows and columns or more every link stays, and XY routing is what it is
in a mesh.

Sources: `configs/topologies/Torus_XY.py`, `Topology::addLink`, `Topology::makeLink`,
`RoutingUnit::outportComputeXY`.
-/
import Bindu.Garnet.MinimalRouting

open List

namespace Bindu.Garnet

open MeshSize Garnet.Topology

/-! ## The link that was added last -/

namespace Topology

/-- If a list of `addLink` calls names a pair, the entry of the pair comes from that list,
whatever was there before. -/
theorem foldl_addLink_of_mem {calls : List ((ℕ × ℕ) × LinkEntry)} {x : ℕ × ℕ} {e : LinkEntry}
    (h : (x, e) ∈ calls) (m : LinkMap) :
    ∃ e', calls.foldl addLink m x = some e' ∧ (x, e') ∈ calls := by
  induction calls using reverseRecOn generalizing e with
  | nil => exact absurd h not_mem_nil
  | append_singleton calls c ih =>
    rw [foldl_append, foldl_cons, foldl_nil]
    by_cases hx : x = c.1
    · subst hx
      exact ⟨c.2, by simp [addLink], mem_append_right _ (mem_singleton.mpr rfl)⟩
    · have hmem : (x, e) ∈ calls := by
        rcases mem_append.mp h with h | h
        · exact h
        · exact absurd (congrArg Prod.fst (mem_singleton.mp h)) hx
      obtain ⟨e', he', hmem'⟩ := ih hmem
      refine ⟨e', ?_, mem_append_left _ hmem'⟩
      rw [addLink, Function.update_of_ne hx]
      exact he'

/-- The calls of the last internal links decide. -/
theorem exists_m_link_map_of_last {T : Topology} {ls ls' : List BasicIntLink}
    (hT : T.m_int_link_vector = ls ++ ls') {l : BasicIntLink} (hl : l ∈ ls') :
    ∃ l' ∈ ls', l'.src_node = l.src_node ∧ l'.dst_node = l.dst_node
      ∧ T.m_link_map (l.src_node + 2 * T.m_nodes, l.dst_node + 2 * T.m_nodes)
        = some ⟨l'.m_latency, l'.m_weight, l'.src_outport, l'.dst_inport⟩ := by
  have hmem : ((l.src_node + 2 * T.m_nodes, l.dst_node + 2 * T.m_nodes),
      (⟨l.m_latency, l.m_weight, l.src_outport, l.dst_inport⟩ : LinkEntry)) ∈
      ls'.map (fun l => ((l.src_node + 2 * T.m_nodes, l.dst_node + 2 * T.m_nodes),
        (⟨l.m_latency, l.m_weight, l.src_outport, l.dst_inport⟩ : LinkEntry))) :=
    mem_map_of_mem hl
  unfold m_link_map addLinkCalls
  rw [hT, map_append, ← append_assoc, foldl_append]
  obtain ⟨e, he, hmem'⟩ := foldl_addLink_of_mem hmem _
  obtain ⟨l', hl', heq⟩ := mem_map.mp hmem'
  simp only [Prod.mk.injEq] at heq
  refine ⟨l', hl', by omega, by omega, ?_⟩
  rw [he, heq.2]

theorem network_m_output_unit (T : Topology) (p : Params) (shape) :
    (T.network p shape).m_output_unit = T.createLinks.m_output_unit := rfl

end Topology

/-! ## Neighbours on a torus -/

variable {d : PortDirection} {r r' : ℕ}

namespace MeshSize

variable {m : MeshSize}

/-- `m.TorusLink r r' d`: router `r'` is the neighbour of `r` in direction `d`, with
wrap-around. -/
def TorusLink (m : MeshSize) (r r' : ℕ) (d : PortDirection) : Prop :=
  r < m.num_routers ∧ r' < m.num_routers ∧ m.TorusAdjacent (m.x r) (m.y r) (m.x r') (m.y r') d

theorem ringSucc_inj {n j k : ℕ} (hj : j < n) (hk : k < n) (h : ringSucc n j = ringSucc n k) :
    j = k := by
  unfold ringSucc at h
  split_ifs at h <;> omega

theorem ringSucc_ne {n k : ℕ} (hn : 2 ≤ n) : ringSucc n k ≠ k := by
  unfold ringSucc
  split_ifs <;> omega

theorem ringSucc_ringSucc_two {k : ℕ} (hk : k < 2) : ringSucc 2 (ringSucc 2 k) = k := by
  unfold ringSucc
  split_ifs <;> omega

theorem ringSucc_ringSucc_ne {n k : ℕ} (hn : 3 ≤ n) : ringSucc n (ringSucc n k) ≠ k := by
  unfold ringSucc
  split_ifs <;> omega

theorem MeshLink.torusLink (h : m.MeshLink r r' d) :
    m.TorusLink r r' d := by
  obtain ⟨hr, hr', h⟩ := h
  have hx := x_lt (m := m) r
  have hx' := x_lt (m := m) r'
  have hy := y_lt hr
  have hy' := y_lt hr'
  refine ⟨hr, hr', ?_⟩
  cases d <;> simp only [Adjacent] at h <;> simp only [TorusAdjacent, ringSucc] <;>
    refine ⟨?_, ?_⟩ <;> first | omega | (rw [if_pos (by omega)]; omega)

theorem TorusLink.neighbour_unique {r r1 r2 : ℕ} (h1 : m.TorusLink r r1 d)
    (h2 : m.TorusLink r r2 d) : r1 = r2 := by
  obtain ⟨-, hr1, h1⟩ := h1
  obtain ⟨-, hr2, h2⟩ := h2
  have hx1 := x_lt (m := m) r1
  have hx₂ := x_lt (m := m) r2
  have hy1 := y_lt hr1
  have hy₂ := y_lt hr2
  cases d <;> simp only [TorusAdjacent] at h1 h2
  · exact eq_of_x_y (h1.1.trans h2.1.symm) (h1.2.trans h2.2.symm)
  · exact eq_of_x_y (ringSucc_inj hx1 hx₂ (h1.1.symm.trans h2.1)) (h1.2.trans h2.2.symm)
  · exact eq_of_x_y (h1.1.trans h2.1.symm) (h1.2.trans h2.2.symm)
  · exact eq_of_x_y (h1.1.trans h2.1.symm) (ringSucc_inj hy1 hy₂ (h1.2.symm.trans h2.2))

/-- **Double neighbours.** Two routers are neighbours in two directions only if the
directions are opposite and the torus has two columns, or two rows, along them. -/
theorem TorusLink.dirn_cases (hc : 2 ≤ m.num_columns) (hr : 2 ≤ m.num_rows)
    {d d' : PortDirection} (h : m.TorusLink r r' d) (h' : m.TorusLink r r' d') :
    d' = d ∨ d' = opposite d ∧ ((d = .East ∨ d = .West) ∧ m.num_columns = 2
      ∨ (d = .North ∨ d = .South) ∧ m.num_rows = 2) := by
  obtain ⟨-, -, h⟩ := h
  obtain ⟨-, -, h'⟩ := h'
  -- an opposite pair of directions goes around a ring of two
  have hx2 : ∀ k, ringSucc m.num_columns (ringSucc m.num_columns k) = k → m.num_columns = 2 := by
    intro k hk
    by_contra hne
    exact ringSucc_ringSucc_ne (by omega) hk
  have hy2 : ∀ k, ringSucc m.num_rows (ringSucc m.num_rows k) = k → m.num_rows = 2 := by
    intro k hk
    by_contra hne
    exact ringSucc_ringSucc_ne (by omega) hk
  -- a horizontal and a vertical direction contradict each other
  have hxne := ringSucc_ne (k := m.x r) hc
  have hxne' := ringSucc_ne (n := m.num_columns) (k := m.x r') hc
  cases d <;> simp only [TorusAdjacent] at h <;> cases d' <;> simp only [TorusAdjacent] at h' <;>
    first
      | exact .inl rfl
      | omega
      | exact .inr ⟨rfl, .inl ⟨by simp, hx2 _ (by rw [← h.1, ← h'.1])⟩⟩
      | exact .inr ⟨rfl, .inr ⟨by simp, hy2 _ (by rw [← h.2, ← h'.2])⟩⟩

end MeshSize

section TorusNetwork

variable {m : MeshSize} {lat : ℕ} {p : Params} {shape : 0 < p.num_rows →
  p.num_rows * ((Torus_XY m lat).m_number_of_switches / p.num_rows)
    = (Torus_XY m lat).m_number_of_switches}

/-! ## The links that stay -/

theorem mem_torus_links {l : BasicIntLink} : l ∈ (Torus_XY m lat).m_int_link_vector ↔
    ∃ d, m.TorusLink l.src_node l.dst_node d
      ∧ l = ⟨l.src_node, l.dst_node, d, opposite d, lat, weightOf d⟩ := by
  have h : l ∈ (Torus_XY m lat).m_int_link_vector ↔ l ∈ m.torus_int_links lat := Iff.rfl
  rw [h, mem_torus_int_links]
  constructor
  · rintro ⟨col, row, col', row', d, hc, hr, hc', hr', hadj, rfl⟩
    refine ⟨d, ⟨lt_num_routers hc hr, lt_num_routers hc' hr', ?_⟩, rfl⟩
    rw [x_of hc, y_of hc, x_of hc', y_of hc']
    exact hadj
  · rintro ⟨d, ⟨hs, hd, hadj⟩, hl⟩
    refine ⟨m.x l.src_node, m.y l.src_node, m.x l.dst_node, m.y l.dst_node, d,
      x_lt _, y_lt hs, x_lt _, y_lt hd, hadj, ?_⟩
    rw [x_add_y, x_add_y]
    exact hl

variable (m lat) in
theorem torus_links_dirn (l : BasicIntLink) :
    (l ∈ m.torus_east_links lat → l.src_outport = .East)
      ∧ (l ∈ m.torus_west_links lat → l.src_outport = .West)
      ∧ (l ∈ m.torus_north_links lat → l.src_outport = .North)
      ∧ (l ∈ m.torus_south_links lat → l.src_outport = .South) := by
  have hif : ∀ (c : Prop) [Decidable c] (x : BasicIntLink),
      l ∈ (if c then [x] else []) → l = x := by
    intro c _ x h
    split_ifs at h
    · exact mem_singleton.mp h
    · cases h
  simp only [torus_east_links, torus_west_links, torus_north_links,
    torus_south_links, mem_flatMap, mem_append]
  refine ⟨?_, ?_, ?_, ?_⟩ <;> rintro ⟨_, -, _, -, h | h⟩ <;> rw [hif _ _ h]

/-- The loops in which a link of a direction is added. -/
theorem mem_torus_links_of_dirn {l : BasicIntLink} (h : l ∈ (Torus_XY m lat).m_int_link_vector) :
    (l.src_outport = .West →
        l ∈ m.torus_west_links lat ++ m.torus_north_links lat ++ m.torus_south_links lat)
      ∧ (l.src_outport = .South → l ∈ m.torus_south_links lat) := by
  obtain ⟨he, hw, hn, -⟩ := torus_links_dirn m lat l
  have hmem : l ∈ m.torus_int_links lat := h
  simp only [torus_int_links, mem_append] at hmem
  constructor
  · intro hd
    rcases hmem with ((h | h) | h) | h
    · rw [he h] at hd
      simp at hd
    · simp [h]
    · simp [h]
    · simp [h]
  · intro hd
    rcases hmem with ((h | h) | h) | h
    · rw [he h] at hd
      simp at hd
    · rw [hw h] at hd
      simp at hd
    · rw [hn h] at hd
      simp at hd
    · exact h

/-- A direction whose links are overwritten: East in two columns, North in two rows. -/
def MeshSize.Overwritten (m : MeshSize) (d : PortDirection) : Prop :=
  (d = .East ∧ m.num_columns = 2) ∨ (d = .North ∧ m.num_rows = 2)

variable (lat) in
/-- **The link map of a torus.** The entry of two neighbours has a direction in which they
are neighbours and which is not overwritten. -/
theorem torus_link_map (hc : 2 ≤ m.num_columns) (hr : 2 ≤ m.num_rows)
    (h : m.TorusLink r r' d) (hd : ¬ m.Overwritten d) :
    (Torus_XY m lat).m_link_map (r + 2 * m.nodes.length, r' + 2 * m.nodes.length)
      = some ⟨lat, weightOf d, d, opposite d⟩ := by
  have hl : (⟨r, r', d, opposite d, lat, weightOf d⟩ : BasicIntLink)
      ∈ (Torus_XY m lat).m_int_link_vector := mem_torus_links.mpr ⟨d, h, rfl⟩
  -- it is enough that the last link of the pair has direction `d`
  have key : ∀ (ls : List BasicIntLink) {ls' : List BasicIntLink}, (Torus_XY m lat).m_int_link_vector = ls ++ ls' →
      (⟨r, r', d, opposite d, lat, weightOf d⟩ : BasicIntLink) ∈ ls' →
      (∀ l ∈ ls', m.TorusLink r r' l.src_outport → l.src_outport = d) →
      (Torus_XY m lat).m_link_map (r + 2 * m.nodes.length, r' + 2 * m.nodes.length)
        = some ⟨lat, weightOf d, d, opposite d⟩ := by
    intro ls ls' hT hmem hlast
    obtain ⟨l', hl', hs, ht, heq⟩ := exists_m_link_map_of_last hT hmem
    have hint : l' ∈ (Torus_XY m lat).m_int_link_vector := by
      rw [hT]
      exact mem_append_right _ hl'
    obtain ⟨d', hd', hl'eq⟩ := mem_torus_links.mp hint
    have hdir : l'.src_outport = d' := by rw [hl'eq]
    rw [hs, ht, ← hdir] at hd'
    obtain rfl : d = d' := by rw [← hdir, hlast l' hl' hd']
    have hN : (Torus_XY m lat).m_nodes = m.nodes.length := rfl
    rw [hN] at heq
    rw [heq, hl'eq]
  have hvec : (Torus_XY m lat).m_int_link_vector = m.torus_east_links lat
      ++ (m.torus_west_links lat ++ m.torus_north_links lat ++ m.torus_south_links lat) := by
    change m.torus_int_links lat = _
    simp only [torus_int_links, append_assoc]
  obtain ⟨hwest, hsouth⟩ := mem_torus_links_of_dirn hl
  by_cases hdW : d = .West
  · -- after the East loop no link of the pair goes East
    refine key _ hvec (hwest hdW) (fun l hl' hlink => ?_)
    rcases h.dirn_cases hc hr hlink with heq | ⟨heq, -⟩
    · exact heq
    · obtain ⟨-, hw, hn, hs⟩ := torus_links_dirn m lat l
      rw [hdW] at heq
      rcases mem_append.mp hl' with hl' | hl'
      · rcases mem_append.mp hl' with hl' | hl'
        · rw [hw hl', hdW]
        · rw [hn hl'] at heq
          exact absurd heq (by simp [opposite])
      · rw [hs hl'] at heq
        exact absurd heq (by simp [opposite])
  by_cases hdS : d = .South
  · -- the South loop is the last one
    refine key (m.torus_east_links lat ++ m.torus_west_links lat
      ++ m.torus_north_links lat) rfl (hsouth hdS) (fun l hl' _ => ?_)
    rw [(torus_links_dirn m lat l).2.2.2 hl', hdS]
  · -- East and North are the only directions of the pair
    refine key [] rfl hl (fun l _ hlink => ?_)
    rcases h.dirn_cases hc hr hlink with heq | ⟨-, ⟨hor, htwo⟩ | ⟨hor, htwo⟩⟩
    · exact heq
    · exact absurd (.inl ⟨hor.resolve_right hdW, htwo⟩) hd
    · exact absurd (.inr ⟨hor.resolve_right hdS, htwo⟩) hd

/-- An overwritten direction has a neighbour in the opposite direction too. -/
theorem MeshSize.TorusLink.of_overwritten (h : m.TorusLink r r' d) (hd : m.Overwritten d) :
    m.TorusLink r r' (opposite d) ∧ ¬ m.Overwritten (opposite d) := by
  obtain ⟨hr, hr', hadj⟩ := h
  rcases hd with ⟨rfl, htwo⟩ | ⟨rfl, htwo⟩
  · refine ⟨⟨hr, hr', ?_⟩, by simp [MeshSize.Overwritten, opposite]⟩
    have hx : m.x r < 2 := htwo ▸ x_lt r
    simp only [MeshSize.TorusAdjacent, opposite, htwo] at hadj ⊢
    exact ⟨by rw [hadj.1, ringSucc_ringSucc_two hx], hadj.2⟩
  · refine ⟨⟨hr, hr', ?_⟩, by simp [MeshSize.Overwritten, opposite]⟩
    have hy : m.y r < 2 := htwo ▸ y_lt hr
    simp only [MeshSize.TorusAdjacent, opposite, htwo] at hadj ⊢
    exact ⟨hadj.1, by rw [hadj.2, ringSucc_ringSucc_two hy]⟩

/-! ## The output ports of a torus router -/

/-- Every entry of the link map between routers is that of a direction that stays. -/
theorem torus_entry_cases (hc : 2 ≤ m.num_columns) (hr : 2 ≤ m.num_rows) {e : LinkEntry}
    (h : (Torus_XY m lat).m_link_map (r + 2 * m.nodes.length, r' + 2 * m.nodes.length) = some e) :
    ∃ d, m.TorusLink r r' d ∧ ¬ m.Overwritten d ∧ e = ⟨lat, weightOf d, d, opposite d⟩ := by
  have hN : (Torus_XY m lat).m_nodes = m.nodes.length := rfl
  obtain ⟨d, hd⟩ : ∃ d, m.TorusLink r r' d := by
    rcases mem_addLinkCalls.mp (mem_addLinkCalls_of_m_link_map h) with
      ⟨l, hl, heq, -⟩ | ⟨l, hl, heq, -⟩ | ⟨l, hl, heq, -⟩ <;> simp only [Prod.mk.injEq] at heq
    · have := ext_node_lt hl
      omega
    · have := ext_node_lt hl
      omega
    · obtain ⟨d, hd, -⟩ := mem_torus_links.mp hl
      obtain rfl : r = l.src_node := by omega
      obtain rfl : r' = l.dst_node := by omega
      exact ⟨d, hd⟩
  by_cases hover : m.Overwritten d
  · obtain ⟨hopp, hstays⟩ := hd.of_overwritten hover
    exact ⟨_, hopp, hstays, Option.some.inj (h.symm.trans (torus_link_map lat hc hr hopp hstays))⟩
  · exact ⟨d, hd, hover, Option.some.inj (h.symm.trans (torus_link_map lat hc hr hd hover))⟩

/-- The output ports of a torus router: the `Local` ones, and one for each neighbour. -/
theorem torus_outport_cases (hc : 2 ≤ m.num_columns) (hr : 2 ≤ m.num_rows) {r o : ℕ}
    {q : OutPort} (h : (((Torus_XY m lat).network p shape).m_output_unit r)[o]? = some q) :
    (q.m_direction = .Local ∧ ∃ n,
        ((Torus_XY m lat).network p shape).linkConsumer q.m_out_link = some (.ni n))
      ∨ ∃ r', m.TorusLink r r' q.m_direction ∧ ¬ m.Overwritten q.m_direction
        ∧ ((Torus_XY m lat).network p shape).linkConsumer q.m_out_link = some (.router r')
        ∧ (Torus_XY m lat).madeLinks[q.m_out_link]?
          = some (r + 2 * m.nodes.length, r' + 2 * m.nodes.length) := by
  rcases outport_cases h with ⟨hdir, n, -, hcons⟩ | ⟨r', e, he, hdir, -, hcons, hl⟩
  · exact .inl ⟨hdir, n, hcons⟩
  · obtain ⟨d, hd, hstays, rfl⟩ := torus_entry_cases hc hr he
    rw [hdir]
    exact .inr ⟨r', hd, hstays, hcons, hl⟩

theorem torus_outport_unique (hc : 2 ≤ m.num_columns) (hr : 2 ≤ m.num_rows) {r o o' : ℕ}
    {q q' : OutPort}
    (h : (((Torus_XY m lat).network p shape).m_output_unit r)[o]? = some q)
    (h' : (((Torus_XY m lat).network p shape).m_output_unit r)[o']? = some q')
    (hdir : q'.m_direction = q.m_direction) (hlocal : q.m_direction ≠ .Local) : o' = o := by
  rcases torus_outport_cases hc hr h with ⟨hl, -⟩ | ⟨r1, h1, -, -, hm1⟩
  · exact absurd hl hlocal
  rcases torus_outport_cases hc hr h' with ⟨hl, -⟩ | ⟨r2, h2, -, -, hm2⟩
  · exact absurd (hdir ▸ hl) hlocal
  rw [hdir] at h2
  rw [h1.neighbour_unique h2, ← hm2] at hm1
  exact outport_unique h h' hm1.symm

variable (lat shape) in
/-- **The port to a neighbour** in a direction that stays is the one the map names. -/
theorem torus_outport (hc : 2 ≤ m.num_columns) (hr : 2 ≤ m.num_rows)
    (h : m.TorusLink r r' d) (hd : ¬ m.Overwritten d) :
    ∃ q, (((Torus_XY m lat).network p shape).m_output_unit r)[m_outports_dirn2idx
        ((Torus_XY m lat).network p shape) r d]? = some q ∧ q.m_direction = d
      ∧ ((Torus_XY m lat).network p shape).linkConsumer q.m_out_link = some (.router r') := by
  obtain ⟨o, q, ho, rfl, -, hcons⟩ := exists_outport_to shape (torus_link_map lat hc hr h hd)
    (weightOf_makes d)
  have hlocal : q.m_direction ≠ .Local := by
    intro hd
    rw [hd] at h
    exact h.2.2
  refine ⟨q, ?_, rfl, hcons⟩
  rw [m_outports_dirn2idx_eq ho (fun o' q' h' heq => torus_outport_unique hc hr ho h' heq hlocal)]
  exact ho

/-! ## XY routing -/

variable (lat shape) in
theorem torus_outportComputeXY (hrows : p.num_rows = m.num_rows) {r : ℕ} {route : RouteInfo}
    (hne : route.dest_router ≠ r) (s : NetState) :
    outportComputeXY ((Torus_XY m lat).network p shape) s r route
      = .ok (m_outports_dirn2idx ((Torus_XY m lat).network p shape) r
          (m.hops r route.dest_router).dirnXY, s) := by
  rw [outportComputeXY, hopsTo_of_shape rfl hrows hne]
  rfl

/-- When the direction of XY routing is overwritten. -/
theorem MeshSize.overwritten_dirnXY {r dest : ℕ} (hne : dest ≠ r) :
    m.Overwritten (m.hops r dest).dirnXY ↔ (m.x r < m.x dest ∧ m.num_columns = 2)
      ∨ (m.x r = m.x dest ∧ m.y r < m.y dest ∧ m.num_rows = 2) := by
  have hxy : ¬ (m.x dest = m.x r ∧ m.y dest = m.y r) :=
    fun h => hne (eq_of_x_y h.1 h.2)
  rw [dirnXY_hops, MeshSize.Overwritten]
  split_ifs <;> simp <;> omega

/-- **When XY routing works on a torus.** In every torus with at least two rows and columns,
at every router and for every other router as destination: `outportComputeXY` returns the
index of a port in the direction it chose, whose link leads one mesh hop nearer to the
destination, exactly if the packet does not have to go East in a torus of two columns or, in
its column, North in a torus of two rows. -/
theorem torus_XY_routing (m : MeshSize) (hc : 2 ≤ m.num_columns) (hr : 2 ≤ m.num_rows)
    (lat : ℕ) (p : Params) (shape) (hrows : p.num_rows = m.num_rows) (route : RouteInfo)
    (hdest : route.dest_router < m.num_routers) (r : ℕ) (hlt : r < m.num_routers)
    (hne : route.dest_router ≠ r) (s : NetState) :
    (∃ o q r', outportComputeXY ((Torus_XY m lat).network p shape) s r route = .ok (o, s)
      ∧ (((Torus_XY m lat).network p shape).m_output_unit r)[o]? = some q
      ∧ q.m_direction = (m.hops r route.dest_router).dirnXY
      ∧ ((Torus_XY m lat).network p shape).linkConsumer q.m_out_link = some (.router r')
      ∧ m.manhattan r' route.dest_router + 1 = m.manhattan r route.dest_router)
    ↔ ¬ ((m.x r < m.x route.dest_router ∧ m.num_columns = 2)
      ∨ (m.x r = m.x route.dest_router ∧ m.y r < m.y route.dest_router ∧ m.num_rows = 2)) := by
  rw [← overwritten_dirnXY hne]
  have hprod := productive_dirnXY (m := m) hne
  constructor
  · rintro ⟨o, q, -, -, hq, hdir, -, -⟩ hover
    rcases torus_outport_cases hc hr hq with ⟨hlocal, -⟩ | ⟨r', -, hstays, -⟩
    · rw [← hdir, hlocal] at hprod
      exact hprod
    · rw [hdir] at hstays
      exact hstays hover
  · intro hstays
    obtain ⟨r', hlink⟩ := hprod.exists_neighbour hlt hdest
    obtain ⟨q, hq, hdir, hcons⟩ := torus_outport lat shape hc hr hlink.torusLink hstays
    exact ⟨_, q, r', torus_outportComputeXY lat shape hrows hne s, hq, hdir, hcons, hlink.manhattan hprod⟩

/-- On the torus of three rows and columns, XY routing from router 0 to router 4 goes East. -/
theorem torus_XY_routing_threeByThree :
    ∃ o q r', outportComputeXY ((Torus_XY .threeByThree 1).network (.default 3) (by decide))
        (((Torus_XY .threeByThree 1).network (.default 3) (by decide)).init
          (fun _ _ => none) (fun _ _ => none) []) 0 ⟨0, {0}, 0, 0, 0, 4, -1⟩
        = .ok (o, ((Torus_XY .threeByThree 1).network (.default 3) (by decide)).init
          (fun _ _ => none) (fun _ _ => none) [])
      ∧ (((Torus_XY .threeByThree 1).network (.default 3) (by decide)).m_output_unit 0)[o]? = some q
      ∧ q.m_direction = (threeByThree.hops 0 4).dirnXY
      ∧ ((Torus_XY .threeByThree 1).network (.default 3) (by decide)).linkConsumer q.m_out_link
        = some (.router r')
      ∧ threeByThree.manhattan r' 4 + 1 = threeByThree.manhattan 0 4 :=
  (torus_XY_routing .threeByThree (by decide) (by decide) 1 (.default 3) (by decide) rfl
    ⟨0, {0}, 0, 0, 0, 4, -1⟩ (by decide) 0 (by decide) (by decide) _).mpr (by decide)

/-- The two by two torus with one node at each router. -/
def twoByTwoTorus : GarnetNetwork := (Torus_XY .twoByTwo 1).network (.default 2) (by decide)

theorem twoByTwoTorus_directions :
    (twoByTwoTorus.m_output_unit 0).map OutPort.m_direction = [.Local, .West, .South] := by
  rw [twoByTwoTorus, network_m_output_unit, (Torus_XY .twoByTwo 1).createLinks_built.outs]
  decide

/-- **No port to the East.** Router 0 of the two by two torus has ports in the directions
Local, West and South. For a packet to router 1, the next one to the East, XY routing returns
the default index 0, and that port leads out of the network. -/
theorem torus_two_columns_no_east :
    outportComputeXY twoByTwoTorus (twoByTwoTorus.init (fun _ _ => none) (fun _ _ => none) []) 0
        ⟨0, {1}, 0, 0, 1, 1, -1⟩
        = .ok (0, twoByTwoTorus.init (fun _ _ => none) (fun _ _ => none) [])
      ∧ (∀ q ∈ twoByTwoTorus.m_output_unit 0, q.m_direction ≠ .East)
      ∧ ∃ q n, (twoByTwoTorus.m_output_unit 0)[0]? = some q
        ∧ twoByTwoTorus.linkConsumer q.m_out_link = some (.ni n) := by
  have hdirs := twoByTwoTorus_directions
  refine ⟨?_, ?_, ?_⟩
  · refine (torus_outportComputeXY 1 (by decide) rfl (by decide) _).trans ?_
    change Except.ok (m_outports_dirn2idx twoByTwoTorus 0 .East, _) = _
    rw [m_outports_dirn2idx, hdirs]
    rfl
  · intro q hq heast
    have hmem := mem_map_of_mem (f := OutPort.m_direction) hq
    rw [hdirs, heast] at hmem
    simp at hmem
  · have hzero : ((twoByTwoTorus.m_output_unit 0)[0]?).map OutPort.m_direction = some .Local := by
      rw [← getElem?_map, hdirs]
      rfl
    obtain ⟨q, hq, hlocal⟩ := Option.map_eq_some_iff.mp hzero
    rcases torus_outport_cases (by decide) (by decide) hq with
      ⟨-, n, hni⟩ | ⟨r', hlink, -⟩
    · exact ⟨q, n, hq, hni⟩
    · rw [hlocal] at hlink
      exact absurd hlink.2.2 id

end TorusNetwork

end Bindu.Garnet
