/-
Table routing follows shortest paths.

`lookupRoutingTable` picks a port in two stages, the least link weight and then the most
free virtual channels, neither of which is part of the shortest path computation. What
makes the choice harmless is that every port it can pick has the destination in its table
entry, and the entries are exact: a link is in the entry of a node only if it is the first
edge of a shortest path to it. So whatever the credits are, a hop shortens the distance,
and the last hop is the one `Local` port that leads to the node.
-/
import Bindu.Garnet.ShortestPath
import Bindu.Garnet.Wiring
import Bindu.Garnet.Routing

open Bindu.Lib List

namespace Bindu.Garnet

/-! ## The two stages of the choice -/

section Lookup

variable (net : GarnetNetwork) (s : NetState)

theorem foldl_min_weight (weight : ℕ → ℕ) (links : List ℕ) (init : ℕ) :
    let m := links.foldl (fun w link => if weight link ≤ w then weight link else w) init
    m ≤ init ∧ (∀ link ∈ links, m ≤ weight link)
      ∧ (m = init ∨ ∃ link ∈ links, weight link = m) := by
  induction links generalizing init with
  | nil => simp
  | cons link links ih =>
    obtain ⟨hle, hall, hor⟩ := ih (if weight link ≤ init then weight link else init)
    have hif : (if weight link ≤ init then weight link else init) ≤ init
        ∧ (if weight link ≤ init then weight link else init) ≤ weight link := by
      split <;> constructor <;> omega
    refine ⟨hle.trans hif.1, ?_, ?_⟩
    · intro x hx
      rcases mem_cons.mp hx with rfl | hx
      · exact hle.trans hif.2
      · exact hall x hx
    · rcases hor with heq | ⟨x, hx, heq⟩
      · by_cases hw : weight link ≤ init
        · rw [if_pos hw] at heq
          exact .inr ⟨link, mem_cons_self .., by
            simpa only [foldl_cons, if_pos hw] using heq.symm⟩
        · rw [if_neg hw] at heq
          exact .inl (by simpa only [foldl_cons, if_neg hw] using heq)
      · exact .inr ⟨x, mem_cons_of_mem _ hx, heq⟩

/-- A list of candidates has a first one with the most free virtual channels. -/
theorem pickMostFree_mem (free : ℕ → ℕ) {candidates : List ℕ} (h : candidates ≠ []) :
    ∃ link ∈ candidates, (pickMostFree free candidates).2 = some link := by
  have key : ∀ (l : List ℕ) (st : ℤ × Option ℕ),
      let r := l.foldl (fun st link =>
        if (free link : ℤ) > st.1 then ((free link : ℤ), some link) else st) st
      (r = st ∨ ∃ link ∈ l, r.2 = some link) ∧ (∀ link ∈ l, (free link : ℤ) ≤ r.1)
        ∧ st.1 ≤ r.1 := by
    intro l
    induction l with
    | nil => simp
    | cons x l ih =>
      intro st
      obtain ⟨hor, hall, hle⟩ :=
        ih (if (free x : ℤ) > st.1 then ((free x : ℤ), some x) else st)
      have hif : (free x : ℤ) ≤ (if (free x : ℤ) > st.1 then ((free x : ℤ), some x)
          else st).1 ∧ st.1 ≤ (if (free x : ℤ) > st.1 then ((free x : ℤ), some x)
          else st).1 := by
        split <;> constructor <;> omega
      refine ⟨?_, ?_, hif.2.trans hle⟩
      · rcases hor with heq | ⟨y, hy, heq⟩
        · by_cases hx : (free x : ℤ) > st.1
          · rw [if_pos hx] at heq
            exact .inr ⟨x, mem_cons_self .., by
              simp only [foldl_cons, if_pos hx, heq]⟩
          · rw [if_neg hx] at heq
            exact .inl (by simpa only [foldl_cons, if_neg hx] using heq)
        · exact .inr ⟨y, mem_cons_of_mem _ hy, heq⟩
      · intro y hy
        rcases mem_cons.mp hy with rfl | hy
        · exact hif.1.trans hle
        · exact hall y hy
  obtain ⟨hor, hall, -⟩ := key candidates (-1, none)
  rcases hor with heq | hlink
  · obtain ⟨x, hx⟩ := exists_mem_of_ne_nil _ h
    have := hall x hx
    rw [heq] at this
    omega
  · exact hlink

/-- **What `lookupRoutingTable` returns**, whatever the credits are: if a port matches the
destination and its weight is not above `INFINITE_`, the result is a matching port of least
weight. -/
theorem lookupRoutingTable_spec (r vnet : ℕ) (dest : NetDest)
    (h : ∃ o ∈ matchingLinks net r dest, m_weight_table net r o ≤ INFINITE_) :
    ∃ o ∈ matchingLinks net r dest, lookupRoutingTable net s r vnet dest = .ok o
      ∧ ∀ o' ∈ matchingLinks net r dest, m_weight_table net r o ≤ m_weight_table net r o' := by
  obtain ⟨o, ho, hw⟩ := h
  obtain ⟨-, hall, hor⟩ :=
    foldl_min_weight (m_weight_table net r) (matchingLinks net r dest) INFINITE_
  have hne : output_link_candidates net r dest ≠ [] := by
    rcases hor with heq | ⟨x, hx, heq⟩
    · refine ne_nil_of_mem (mem_filter.mpr ⟨ho, ?_⟩)
      have hle := hall o ho
      rw [heq] at hle
      simpa [min_weight, heq] using le_antisymm hw hle
    · exact ne_nil_of_mem (mem_filter.mpr ⟨hx, decide_eq_true heq⟩)
  obtain ⟨x, hx, hpick⟩ := pickMostFree_mem
    (fun link => getNumFreeVCs net s (net.outLink r link) vnet) hne
  obtain ⟨hxm, hxw⟩ := mem_filter.mp hx
  refine ⟨x, hxm, ?_, ?_⟩
  · simp only [lookupRoutingTable, hpick]
    rfl
  · intro o' ho'
    rw [of_decide_eq_true hxw]
    exact hall o' ho'

end Lookup

/-! ## The entries of the tables -/

namespace Topology

variable {T : Topology} {p : Params} {shape : 0 < p.num_rows →
  p.num_rows * (T.m_number_of_switches / p.num_rows) = T.m_number_of_switches}

theorem topology_weights_ext_out {n : ℕ} (hn : n < T.m_nodes) (k : ℕ) :
    T.topology_weights (n + T.m_nodes) k = if n + T.m_nodes = k then 0 else INFINITE_LATENCY := by
  have hnone : T.m_link_map (n + T.m_nodes, k) = none := by
    cases he : T.m_link_map (n + T.m_nodes, k) with
    | none => rfl
    | some e =>
      rcases mem_addLinkCalls.mp (mem_addLinkCalls_of_m_link_map he) with
        ⟨l, hl, heq, -⟩ | ⟨l, hl, heq, -⟩ | ⟨l, hl, heq, -⟩ <;>
        simp only [Prod.mk.injEq] at heq
      · have := ext_node_lt hl
        omega
      · omega
      · omega
  simp [topology_weights, hnone]

theorem ext_out_lt_num_switches {n : ℕ} (hn : n < T.m_nodes) :
    n + T.m_nodes < T.num_switches := by
  obtain ⟨l, hl, rfl⟩ := exists_ext_link hn
  exact (lt_num_switches (mem_addLinkCalls.mpr (.inr (.inl ⟨l, hl, rfl, rfl⟩)))).2

theorem dist_ext_out_self {n : ℕ} (hn : n < T.m_nodes) :
    T.dist (n + T.m_nodes) (n + T.m_nodes) = 0 := by
  have h := T.dist_spec.1.le_edge (ext_out_lt_num_switches hn) (ext_out_lt_num_switches hn)
  rw [topology_weights_ext_out hn, if_pos rfl] at h
  exact Nat.le_zero.mp h

theorem infinite_le_dist_ext_out {n d : ℕ} (hn : n < T.m_nodes) (hd : d < T.m_nodes)
    (hne : n ≠ d) : INFINITE_LATENCY ≤ T.dist (n + T.m_nodes) (d + T.m_nodes) := by
  have hS := ext_out_lt_num_switches hn
  have hS' := ext_out_lt_num_switches hd
  obtain ⟨k, hk, hkne, heq⟩ := T.dist_spec.1.exists_next hS hS' (by omega) (dist_ext_out_self hd)
  rw [← heq, topology_weights_ext_out hn, if_neg (Ne.symm hkne)]
  exact Nat.le_add_right _ _

/-- All weights of a topology with positive internal weights are positive off the diagonal. -/
theorem topology_weights_pos (hpos : ∀ l ∈ T.m_int_link_vector, 0 < l.m_weight) {i j : ℕ}
    (hij : i ≠ j) : 0 < T.topology_weights i j := by
  unfold topology_weights
  cases he : T.m_link_map (i, j) with
  | none => simp [hij]
  | some e =>
    rcases mem_addLinkCalls.mp (mem_addLinkCalls_of_m_link_map he) with
      ⟨l, hl, -, rfl⟩ | ⟨l, hl, -, rfl⟩ | ⟨l, hl, -, rfl⟩
    · exact (T.ext_weights l hl).1
    · exact (T.ext_weights l hl).1
    · exact hpos l hl

theorem mem_tableOf {i j d : ℕ} : d ∈ T.tableOf (i, j) ↔ d < T.m_nodes
    ∧ T.topology_weights i j + T.dist j (d + T.m_nodes) = T.dist i (d + T.m_nodes) := by
  simp [tableOf, shortest_path_to_node, link_is_shortest_path_to_node]

theorem outPortOf_fields (i j l : ℕ) :
    (T.outPortOf (i, j) l).m_routing_table = T.tableOf (i, j)
      ∧ (T.outPortOf (i, j) l).m_weight_table = (T.entry (i, j)).m_weight := by
  unfold outPortOf
  split <;> exact ⟨rfl, rfl⟩

theorem entry_weight_of_madeLink {ij : ℕ × ℕ} (h : ij ∈ T.madeLinks) :
    (T.entry ij).m_weight = T.topology_weights ij.1 ij.2 := by
  obtain ⟨e, he, hw⟩ := exists_entry_of_madeLink h
  simp [entry, he, hw]

/-- The ports that match a destination are the starts of the made links whose table entry
contains it. -/
theorem mem_matchingLinks {r o d : ℕ} :
    o ∈ matchingLinks (T.network p shape) r {d} ↔ ∃ j l,
      T.madeLinks[l]? = some (r + 2 * T.m_nodes, j)
      ∧ ((T.network p shape).m_output_unit r)[o]? = some (T.outPortOf (r + 2 * T.m_nodes, j) l)
      ∧ d ∈ T.tableOf (r + 2 * T.m_nodes, j) := by
  simp only [matchingLinks, mem_filter, mem_range, NetDest.intersectionIsNotEmpty,
    Finset.singleton_inter, decide_eq_true_eq, m_routing_table]
  constructor
  · rintro ⟨hlt, hmem⟩
    have ho := getElem?_eq_getElem hlt
    obtain ⟨j, l, hl, hq⟩ := getElem?_m_output_unit ho
    rw [ho, hq] at hmem
    refine ⟨j, l, hl, by rw [ho, hq], ?_⟩
    rw [← (outPortOf_fields _ _ l).1]
    by_contra hd
    simp [hd] at hmem
  · rintro ⟨j, l, -, ho, hd⟩
    rw [ho]
    refine ⟨(List.getElem?_eq_some_iff.mp ho).1, ?_⟩
    simp only [(outPortOf_fields _ _ l).1, hd, if_true]
    exact Finset.singleton_nonempty d

/-- The router a distance below `INFINITE_LATENCY` starts from is named by a link. -/
theorem lt_num_switches_of_dist {r d : ℕ} (hd : d < T.m_nodes)
    (h : T.dist (r + 2 * T.m_nodes) (d + T.m_nodes) < INFINITE_LATENCY) :
    r + 2 * T.m_nodes < T.num_switches := by
  by_contra hge
  rw [T.dist_spec.2.outside _ _ (not_lt.mp hge)] at h
  cases he : T.m_link_map (r + 2 * T.m_nodes, d + T.m_nodes) with
  | none =>
    simp only [topology_weights, he] at h
    rw [if_neg (by omega)] at h
    exact lt_irrefl _ h
  | some e => exact hge (lt_num_switches (mem_addLinkCalls_of_m_link_map he)).1

/-- Where a port leads whose table entry contains a reachable node: to the node itself, or
to a router nearer to it. -/
theorem matching_port {r d j l : ℕ} (hmade : (r + 2 * T.m_nodes, j) ∈ T.madeLinks)
    (hmem : d ∈ T.tableOf (r + 2 * T.m_nodes, j))
    (hreach : T.dist (r + 2 * T.m_nodes) (d + T.m_nodes) < INFINITE_LATENCY) :
    (j = d + T.m_nodes ∧ (T.outPortOf (r + 2 * T.m_nodes, j) l).m_direction = .Local)
      ∨ ∃ r', j = r' + 2 * T.m_nodes ∧ T.dist (r' + 2 * T.m_nodes) (d + T.m_nodes)
          < T.dist (r + 2 * T.m_nodes) (d + T.m_nodes) := by
  obtain ⟨hd, heq⟩ := mem_tableOf.mp hmem
  have hw := (mem_madeLinks.mp hmade).2.1
  rcases madeLink_kind hmade with ⟨hlt, -⟩ | ⟨-, -, -, n, hn, hj⟩ | ⟨-, -, -, r', -, hj⟩
  · simp only at hlt
    omega
  · simp only at hj
    subst hj
    obtain rfl : n = d := by
      by_contra hne
      have := infinite_le_dist_ext_out hn hd hne
      omega
    refine .inl ⟨rfl, ?_⟩
    rw [outPortOf, if_pos (by simp only; omega)]
  · simp only at hj
    subst hj
    exact .inr ⟨r', rfl, by omega⟩

variable (shape) in
/-- **One hop of table routing.** For a node within reach the table has a port, and it leads
to the node or to a router nearer to it. -/
theorem lookupRoutingTable_hop (hpos : ∀ l ∈ T.m_int_link_vector, 0 < l.m_weight) {r d : ℕ}
    (hd : d < T.m_nodes)
    (hreach : T.dist (r + 2 * T.m_nodes) (d + T.m_nodes) < INFINITE_LATENCY)
    (s : NetState) (vnet : ℕ) :
    ∃ o q, lookupRoutingTable (T.network p shape) s r vnet {d} = .ok o
      ∧ ((T.network p shape).m_output_unit r)[o]? = some q
      ∧ ((q.m_direction = .Local ∧ (T.network p shape).linkConsumer q.m_out_link = some (.ni d))
        ∨ ∃ r', (T.network p shape).linkConsumer q.m_out_link = some (.router r')
          ∧ T.dist (r' + 2 * T.m_nodes) (d + T.m_nodes)
            < T.dist (r + 2 * T.m_nodes) (d + T.m_nodes)) := by
  have hS := lt_num_switches_of_dist hd hreach
  have hS' := ext_out_lt_num_switches hd
  -- the first edge of a shortest path is a made link, so some port matches
  obtain ⟨j, hj, hne, heq⟩ := T.dist_spec.1.exists_next hS hS' (by omega) (dist_ext_out_self hd)
  have hmade : (r + 2 * T.m_nodes, j) ∈ T.madeLinks :=
    mem_madeLinks.mpr ⟨⟨hS, hj⟩, topology_weights_pos hpos (Ne.symm hne), by omega⟩
  obtain ⟨l, hl⟩ := getElem?_of_mem hmade
  obtain ⟨o, ho⟩ := exists_out_port shape hl
  have hmatch : o ∈ matchingLinks (T.network p shape) r {d} :=
    mem_matchingLinks.mpr ⟨j, l, hl, ho, mem_tableOf.mpr ⟨hd, heq⟩⟩
  have hweight : m_weight_table (T.network p shape) r o ≤ INFINITE_ := by
    simp only [m_weight_table, ho, (outPortOf_fields _ _ l).2, entry_weight_of_madeLink hmade]
    exact ((Nat.le_add_right _ _).trans heq.le).trans hreach.le
  -- whichever port is picked, its entry contains the node
  obtain ⟨x, hx, hlookup, -⟩ := lookupRoutingTable_spec (T.network p shape) s r vnet {d}
    ⟨o, hmatch, hweight⟩
  obtain ⟨j', l', hl', hport, hmem⟩ := mem_matchingLinks.mp hx
  have hmade' := mem_of_getElem? hl'
  refine ⟨x, _, hlookup, hport, ?_⟩
  rw [outPortOf_m_out_link]
  rcases matching_port hmade' hmem hreach with ⟨rfl, hlocal⟩ | ⟨r', rfl, hlt⟩
  · exact .inl ⟨hlocal,
      linkConsumer_eq_some.mpr ⟨_, hl', ((consumer_linkOf hmade').1.2 d).mpr ⟨hd, rfl⟩⟩⟩
  · exact .inr ⟨r',
      linkConsumer_eq_some.mpr ⟨_, hl', ((consumer_linkOf hmade').1.1 r').mpr rfl⟩, hlt⟩

end Topology

/-! ## Following the tables -/

/-- Follow the port of `lookupRoutingTable` from router `r` to router. Hop `k` is decided in
state `credits k`. The result is where the packet is after at most `fuel` hops. -/
def followTable (net : GarnetNetwork) (vnet : ℕ) (dest : NetDest) (credits : ℕ → NetState) :
    ℕ → ℕ → ℕ → Except Fault Endpoint
  | 0, _, r => pure (.router r)
  | fuel + 1, k, r => do
      let o ← lookupRoutingTable net (credits k) r vnet dest
      match net.linkConsumer (net.outLink r o) with
      | some (.router r') => followTable net vnet dest credits fuel (k + 1) r'
      | some (.ni n) => pure (.ni n)
      | none => throw .no_outport

namespace Topology

theorem followTable_eq {T : Topology} {p : Params} {shape}
    (hpos : ∀ l ∈ T.m_int_link_vector, 0 < l.m_weight) {d : ℕ} (hd : d < T.m_nodes) (vnet : ℕ)
    (credits : ℕ → NetState) (fuel k r : ℕ)
    (hfuel : T.dist (r + 2 * T.m_nodes) (d + T.m_nodes) < fuel)
    (hreach : T.dist (r + 2 * T.m_nodes) (d + T.m_nodes) < INFINITE_LATENCY) :
    followTable (T.network p shape) vnet {d} credits fuel k r = .ok (.ni d) := by
  induction fuel generalizing k r with
  | zero => omega
  | succ fuel ih =>
    obtain ⟨o, q, hlookup, ho, hor⟩ :=
      lookupRoutingTable_hop shape hpos hd hreach (credits k) vnet
    have hlink : (T.network p shape).outLink r o = q.m_out_link := by
      simp [GarnetNetwork.outLink, ho]
    simp only [followTable, hlookup, bind, Except.bind, hlink]
    rcases hor with ⟨-, hni⟩ | ⟨r', hrouter, hlt⟩
    · rw [hni]
      rfl
    · rw [hrouter]
      exact ih (k + 1) r' (by omega) (by omega)

/-- Two routers with one node each. -/
def twoRouters : Topology where
  m_nodes := 2
  m_number_of_switches := 2
  m_ext_link_vector := [⟨0, 0, 1, 1⟩, ⟨1, 1, 1, 1⟩]
  m_int_link_vector := [⟨0, 1, .East, .West, 1, 1⟩, ⟨1, 0, .West, .East, 1, 1⟩]
  ext_nodes := by decide
  ext_routers := by decide
  ext_weights := by decide
  int_routers := by decide

theorem twoRouters_dist_le : twoRouters.dist (0 + 2 * 2) (1 + 2) ≤ 2 := by
  have hS : ∀ k < 6, k < twoRouters.num_switches := by decide
  have hw1 : twoRouters.topology_weights 4 5 = 1 := by decide
  have hw2 : twoRouters.topology_weights 5 3 = 1 := by decide
  have hwalk := Walk.step (S := {k | k < twoRouters.num_switches}) 4 5 3 _ (hS 5 (by decide))
    (.edge (w := twoRouters.topology_weights) 5 3)
  rw [hw1, hw2] at hwalk
  exact twoRouters.dist_spec.1.le 4 (hS 4 (by decide)) 3 (hS 3 (by decide)) 2 hwalk

/-- `twoRouters` with the default options. -/
def twoRoutersNet : GarnetNetwork := twoRouters.network (.default 1) (by decide)

end Topology

end Bindu.Garnet
