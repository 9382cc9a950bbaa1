/-
The channel dependencies of the turn-restricted routing functions are acyclic.

A channel is a link between two routers. One channel depends on another when a packet that
was routed over the first one may, at the router it has arrived at, be routed over the
second. The ranking below puts the West channels first, from the right edge of the mesh to
the left one, and after them the columns from left to right: in each column the North and
South channels in the direction of travel, and last the East channels that leave it. XY and
west-first routing only ever turn to a channel of higher rank.
-/
import Bindu.Garnet.Mesh

open Bindu.Lib

namespace Bindu.Garnet

open MeshSize

/-! ## Dependencies -/

/-- The type of the functions `outportCompute` selects from. -/
abbrev RoutingFunction :=
  GarnetNetwork → NetState → ℕ → RouteInfo → Except Fault (ℕ × NetState)

/-- In some state, that is for some credits and some outcomes of `random()`, router `r`
routes the packet over channel `c`. -/
def MayRoute (f : RoutingFunction) (net : GarnetNetwork) (r : ℕ) (route : RouteInfo) (c : ℕ) :
    Prop :=
  ∃ s o s', f net s r route = .ok (o, s') ∧ net.outLink r o = c

/-- Channel `a` depends on channel `b`: a packet for some router that has arrived over `a`
at a router other than its destination may be routed out over `b`. -/
def DependsOn (f : RoutingFunction) (net : GarnetNetwork) (a b : ℕ) : Prop :=
  ∃ u r route, u < net.num_routers ∧ route.dest_router < net.num_routers
    ∧ route.dest_router ≠ u ∧ MayRoute f net u route a
    ∧ net.linkConsumer a = some (.router r) ∧ route.dest_router ≠ r ∧ MayRoute f net r route b

/-! ## The ranking -/

/-- The rank of the channel from the router in column `col` and row `row` in a direction. -/
def MeshSize.rank (m : MeshSize) (col row : ℕ) : PortDirection → ℕ
  | .West => m.num_columns - col
  | .North => m.num_columns + (col * (m.num_rows + 1) + row)
  | .South => m.num_columns + (col * (m.num_rows + 1) + (m.num_rows - row))
  | .East => m.num_columns + (col * (m.num_rows + 1) + m.num_rows)
  | _ => 0

/-- The directions a west-first packet may take: West before anything else. -/
def MeshSize.WestFirst (m : MeshSize) (r dest : ℕ) (d : PortDirection) : Prop :=
  m.Productive r dest d ∧ (m.x dest < m.x r → d = .West)

/-- **A turn raises the rank.** From router `r` in direction `d` to its neighbour `r'` and on
in direction `d'`. -/
theorem MeshSize.WestFirst.rank_lt {m : MeshSize} {r r' dest : ℕ} {d d' : PortDirection}
    (h : m.WestFirst r dest d) (hlink : m.MeshLink r r' d) (h' : m.WestFirst r' dest d') :
    m.rank (m.x r) (m.y r) d < m.rank (m.x r') (m.y r') d' := by
  obtain ⟨hr, hr', hadj⟩ := hlink
  have hx := x_lt (m := m) r
  have hy' := y_lt hr'
  obtain ⟨hp, hw⟩ := h
  obtain ⟨hp', hw'⟩ := h'
  -- the turns that are left after the split are the allowed ones; the rest contradict
  -- where the packet is going
  cases d <;> simp only [Adjacent, Productive, reduceCtorEq, imp_false] at hadj hp hw <;>
    cases d' <;> simp only [Productive, reduceCtorEq, imp_false] at hp' hw' <;>
    simp only [rank, hadj.1, hadj.2, Nat.add_mul] <;> omega

theorem MeshSize.westFirst_dirnXY {m : MeshSize} {r dest : ℕ} (hne : dest ≠ r) :
    m.WestFirst r dest (m.hops r dest).dirnXY := by
  refine ⟨productive_dirnXY hne, fun h => ?_⟩
  rw [dirnXY_hops, if_neg (by omega), if_pos h]

theorem MeshSize.dirnWestFirst_hops {m : MeshSize} (r dest rand : ℕ) :
    (m.hops r dest).dirnWestFirst rand =
      if m.x dest = m.x r then (if m.y r ≤ m.y dest then .North else .South)
      else if m.y dest = m.y r then (if m.x r ≤ m.x dest then .East else .West)
      else if m.x dest < m.x r then .West
      else if m.y r ≤ m.y dest then pick rand .East .North else pick rand .East .South := by
  simp only [hops, Hops.dirnWestFirst, decide_eq_true_eq, Bool.not_eq_true',
    decide_eq_false_iff_not]
  split_ifs <;> first | rfl | omega

theorem MeshSize.westFirst_dirnWestFirst {m : MeshSize} {r dest : ℕ} (hne : dest ≠ r)
    (rand : ℕ) : m.WestFirst r dest ((m.hops r dest).dirnWestFirst rand) := by
  have hxy : ¬ (m.x dest = m.x r ∧ m.y dest = m.y r) :=
    fun h => hne (eq_of_x_y h.1 h.2)
  rw [dirnWestFirst_hops]
  unfold pick
  split_ifs <;> refine ⟨?_, fun hw => ?_⟩ <;> first | rfl | (simp only [Productive]; omega) | omega

section MeshNetwork

variable {m : MeshSize} {lat : ℕ} {p : Params} {shape : 0 < p.num_rows →
  p.num_rows * ((Mesh_XY m lat).m_number_of_switches / p.num_rows)
    = (Mesh_XY m lat).m_number_of_switches}

/-! ## What the functions may return -/

theorem mayRoute_XY (hrows : p.num_rows = m.num_rows) {r c : ℕ} {route : RouteInfo}
    (hne : route.dest_router ≠ r)
    (h : MayRoute outportComputeXY ((Mesh_XY m lat).network p shape) r route c) :
    c = ((Mesh_XY m lat).network p shape).outLink r (m_outports_dirn2idx
      ((Mesh_XY m lat).network p shape) r (m.hops r route.dest_router).dirnXY) := by
  obtain ⟨s, o, s', hf, rfl⟩ := h
  rw [outportComputeXY, mesh_hopsTo hrows hne] at hf
  rw [← (Prod.mk.inj (Except.ok.inj hf)).1]

theorem mayRoute_westFirst (hrows : p.num_rows = m.num_rows) {r c : ℕ} {route : RouteInfo}
    (hne : route.dest_router ≠ r) :
    MayRoute outportComputeWestFirst ((Mesh_XY m lat).network p shape) r route c ↔
      ∃ rand, c = ((Mesh_XY m lat).network p shape).outLink r (m_outports_dirn2idx
        ((Mesh_XY m lat).network p shape) r ((m.hops r route.dest_router).dirnWestFirst rand)) := by
  constructor
  · rintro ⟨s, o, s', hf, rfl⟩
    rw [outportComputeWestFirst, mesh_hopsTo hrows hne] at hf
    obtain ⟨h, hh, hf⟩ := bind_eq_ok.mp hf
    obtain ⟨⟨rand, s1⟩, -, hf⟩ := bind_eq_ok.mp hf
    cases hh
    exact ⟨rand, by rw [← (Prod.mk.inj (Except.ok.inj hf)).1]⟩
  · rintro ⟨rand, rfl⟩
    refine ⟨((Mesh_XY m lat).network p shape).init (fun _ _ => none) (fun _ _ => none) [rand],
      _, ((Mesh_XY m lat).network p shape).init (fun _ _ => none) (fun _ _ => none) [], ?_, rfl⟩
    rw [outportComputeWestFirst, mesh_hopsTo hrows hne]
    rfl

theorem moreFree_ok {net : GarnetNetwork} {s : NetState} {my_id rand : ℕ}
    {a a' b b' d : PortDirection} (h : moreFree net s my_id rand a a' b b' = .ok d) :
    ∃ rand', d = pick rand' a b := by
  obtain ⟨_, -, h⟩ := bind_eq_ok.mp h
  obtain ⟨_, -, h⟩ := bind_eq_ok.mp h
  obtain ⟨n1, -, h⟩ := bind_eq_ok.mp h
  obtain ⟨n2, -, h⟩ := bind_eq_ok.mp h
  cases h
  split_ifs
  · exact ⟨1, rfl⟩
  · exact ⟨0, rfl⟩
  · exact ⟨rand, rfl⟩

/-- The adaptive function picks one of the two directions the random one may pick. -/
theorem MayRoute.of_adaptWestFirst (hrows : p.num_rows = m.num_rows) {r c : ℕ}
    {route : RouteInfo} (hne : route.dest_router ≠ r)
    (h : MayRoute outportComputeAdaptWestFirst ((Mesh_XY m lat).network p shape) r route c) :
    MayRoute outportComputeWestFirst ((Mesh_XY m lat).network p shape) r route c := by
  obtain ⟨s, o, s', hf, rfl⟩ := h
  rw [mayRoute_westFirst hrows hne]
  rw [outportComputeAdaptWestFirst, mesh_hopsTo hrows hne] at hf
  obtain ⟨h, hh, hf⟩ := bind_eq_ok.mp hf
  cases hh
  obtain ⟨⟨rand, s1⟩, -, hf⟩ := bind_eq_ok.mp hf
  obtain ⟨d, hd, hf⟩ := bind_eq_ok.mp hf
  rw [← (Prod.mk.inj (Except.ok.inj hf)).1]
  suffices hrand : ∃ rand', d = (m.hops r route.dest_router).dirnWestFirst rand' from
    hrand.imp (fun rand' h => by rw [h])
  unfold adaptWestFirstDirn at hd
  unfold Hops.dirnWestFirst
  split_ifs at hd ⊢
  · cases hd
    exact ⟨0, rfl⟩
  · cases hd
    exact ⟨0, rfl⟩
  · cases hd
    exact ⟨0, rfl⟩
  · cases hd
    exact ⟨0, rfl⟩
  · cases hd
    exact ⟨0, rfl⟩
  · exact moreFree_ok hd
  · exact moreFree_ok hd

/-! ## The ranking of the channels -/

/-- The rank of a channel of a network: the rank of its router and direction. -/
def channelRank (m : MeshSize) (net : GarnetNetwork) (c : ℕ) : ℕ :=
  match net.creditConsumer c with
  | some (.router u) =>
    match (net.m_output_unit u).find? (fun q => q.m_out_link = c) with
    | some q => m.rank (m.x u) (m.y u) q.m_direction
    | none => 0
  | _ => 0

theorem channelRank_outport {net : GarnetNetwork} (hnet : Wired net) {u o : ℕ} {q : OutPort}
    (h : (net.m_output_unit u)[o]? = some q) :
    channelRank m net q.m_out_link = m.rank (m.x u) (m.y u) q.m_direction := by
  have hfind : (net.m_output_unit u).find? (fun q' => q'.m_out_link = q.m_out_link) = some q := by
    have hsome : ((net.m_output_unit u).find? (fun q' => q'.m_out_link = q.m_out_link)).isSome :=
      List.find?_isSome.mpr ⟨q, List.mem_of_getElem? h, by simp⟩
    obtain ⟨q', hq'⟩ := Option.isSome_iff_exists.mp hsome
    have hlink : q'.m_out_link = q.m_out_link := by simpa using List.find?_some hq'
    obtain ⟨o', ho'⟩ := List.getElem?_of_mem (List.mem_of_find?_eq_some hq')
    obtain rfl := hnet.outport_inj u o' o q' q ho' h hlink
    rw [hq', ← ho', h]
  simp only [channelRank, (hnet.outport u o q h).2, hfind]

variable (shape) in
/-- A direction of a packet on its way is a channel to a neighbour. -/
theorem channel_of_westFirst {r dest : ℕ} {d : PortDirection} (h : m.WestFirst r dest d)
    (hr : r < m.num_routers) (hdest : dest < m.num_routers) :
    let net := (Mesh_XY m lat).network p shape
    let c := net.outLink r (m_outports_dirn2idx net r d)
    ∃ r', m.MeshLink r r' d ∧ net.linkConsumer c = some (.router r')
      ∧ channelRank m net c = m.rank (m.x r) (m.y r) d := by
  obtain ⟨r', hlink⟩ := h.1.exists_neighbour hr hdest
  obtain ⟨q, hq, hdir, -, hcons⟩ := mesh_outport shape hlink
  have hout : ((Mesh_XY m lat).network p shape).outLink r (m_outports_dirn2idx
      ((Mesh_XY m lat).network p shape) r d) = q.m_out_link := by
    simp only [GarnetNetwork.outLink, hq]
  refine ⟨r', hlink, by rw [hout]; exact hcons, ?_⟩
  rw [hout, channelRank_outport (Topology.network_wired _ _ _) hq, hdir]

/-- A function that only takes west-first directions only raises the rank. -/
theorem DependsOn.rank_lt {f : RoutingFunction}
    (hf : ∀ {r c : ℕ} {route : RouteInfo}, route.dest_router ≠ r →
      MayRoute f ((Mesh_XY m lat).network p shape) r route c →
      ∃ d, m.WestFirst r route.dest_router d ∧ c = ((Mesh_XY m lat).network p shape).outLink r
          (m_outports_dirn2idx ((Mesh_XY m lat).network p shape) r d))
    {a b : ℕ} (h : DependsOn f ((Mesh_XY m lat).network p shape) a b) :
    channelRank m ((Mesh_XY m lat).network p shape) a
      < channelRank m ((Mesh_XY m lat).network p shape) b := by
  obtain ⟨u, r, route, hu, hdest, hne, ha, hcons, hne', hb⟩ := h
  obtain ⟨d, hd, rfl⟩ := hf hne ha
  obtain ⟨d', hd', rfl⟩ := hf hne' hb
  obtain ⟨r', hlink, hcons', hrank⟩ := channel_of_westFirst shape hd hu hdest
  obtain rfl : r = r' := by simpa using hcons.symm.trans hcons'
  obtain ⟨-, -, -, hrank'⟩ := channel_of_westFirst shape hd' hlink.2.1 hdest
  rw [hrank, hrank']
  exact hd.rank_lt hlink hd'

/-- **Static deadlock freedom of XY and west-first routing.** In every mesh there is a
ranking of the channels that strictly increases along every dependency of either function,
so neither relation has a cycle, and the dependencies of the adaptive west-first function
are among those of the random one. -/
theorem mesh_dependencies_acyclic (m : MeshSize) (lat : ℕ) (p : Params) (shape)
    (hrows : p.num_rows = m.num_rows) :
    (∃ rank : ℕ → ℕ, (∀ a b, DependsOn outportComputeXY ((Mesh_XY m lat).network p shape) a b →
        rank a < rank b)
      ∧ ∀ a b, DependsOn outportComputeWestFirst ((Mesh_XY m lat).network p shape) a b →
        rank a < rank b)
    ∧ (∀ a b, DependsOn outportComputeAdaptWestFirst ((Mesh_XY m lat).network p shape) a b →
      DependsOn outportComputeWestFirst ((Mesh_XY m lat).network p shape) a b) := by
  refine ⟨⟨channelRank m ((Mesh_XY m lat).network p shape), ?_, ?_⟩, ?_⟩
  · intro a b h
    refine h.rank_lt (fun hne hroute => ?_)
    exact ⟨_, westFirst_dirnXY hne, mayRoute_XY hrows hne hroute⟩
  · intro a b h
    refine h.rank_lt (fun hne hroute => ?_)
    obtain ⟨rand, hc⟩ := (mayRoute_westFirst hrows hne).mp hroute
    exact ⟨_, westFirst_dirnWestFirst hne rand, hc⟩
  · rintro a b ⟨u, r, route, hu, hdest, hne, ha, hcons, hne', hb⟩
    exact ⟨u, r, route, hu, hdest, hne, ha.of_adaptWestFirst hrows hne, hcons, hne',
      hb.of_adaptWestFirst hrows hne'⟩

/-- The ranking of the three by three mesh. -/
theorem mesh_dependencies_acyclic_threeByThree :
    ∃ rank : ℕ → ℕ, ∀ a b, DependsOn outportComputeWestFirst
      ((Mesh_XY .threeByThree 1).network (.default 3) (by decide)) a b → rank a < rank b := by
  obtain ⟨⟨rank, -, hwf⟩, -⟩ := mesh_dependencies_acyclic .threeByThree 1 (.default 3)
    (by decide) rfl
  exact ⟨rank, hwf⟩

end MeshNetwork

end Bindu.Garnet
