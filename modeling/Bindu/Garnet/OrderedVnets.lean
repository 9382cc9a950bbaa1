/-
Table routing of ordered virtual networks.

The comments of `lookupRoutingTable` and of `Mesh_westfirst.py` promise that packets of an
ordered virtual network always take the first of the links of least weight, so that they
cannot overtake each other on different routes. The code that did so is commented out:
whatever the virtual network, the link with the most free virtual channels is taken. This
file says for which tables that makes no difference.

Sources: `garnet2.0/RoutingUnit.cc`, `OutputUnit::getNumFreeVCs`,
`configs/topologies/Mesh_westfirst.py`.
-/
import Bindu.Garnet.TableRouting
import Bindu.Garnet.Mesh

open Bindu.Lib List

namespace Bindu.Garnet

open Garnet.Topology

/-! ## The candidates -/

section Lookup

variable {net : GarnetNetwork} {r : ℕ} {dest : NetDest}

/-- Output link `o` of router `r` has the destination in its table entry, and no other such
link weighs less. A link that weighs more than `INFINITE_` is passed over. -/
def LeastWeight (net : GarnetNetwork) (r : ℕ) (dest : NetDest) (o : ℕ) : Prop :=
  o ∈ matchingLinks net r dest ∧ m_weight_table net r o ≤ INFINITE_
    ∧ ∀ o' ∈ matchingLinks net r dest, m_weight_table net r o ≤ m_weight_table net r o'

theorem mem_output_link_candidates {o : ℕ} :
    o ∈ output_link_candidates net r dest ↔ LeastWeight net r dest o := by
  obtain ⟨hle, hall, hor⟩ :=
    foldl_min_weight (m_weight_table net r) (matchingLinks net r dest) INFINITE_
  change min_weight net r dest = _ ∨ ∃ o ∈ _, _ = min_weight net r dest at hor
  simp only [output_link_candidates, mem_filter, decide_eq_true_eq]
  constructor
  · rintro ⟨hmem, hw⟩
    exact ⟨hmem, hw.le.trans hle, fun o' ho' => hw.le.trans (hall o' ho')⟩
  · rintro ⟨hmem, hinf, hleast⟩
    refine ⟨hmem, le_antisymm ?_ (hall o hmem)⟩
    rcases hor with heq | ⟨x, hx, heq⟩
    · rw [heq]
      exact hinf
    · rw [← heq]
      exact hleast x hx

/-- The running maximum of the last loop is the number of the link it was found at, and at
least that of every link seen so far. -/
theorem foldl_mostFree (free : ℕ → ℕ) (l : List ℕ) (st : ℤ × Option ℕ)
    (hst : ∀ o, st.2 = some o → st.1 = free o) :
    let r := l.foldl (fun st link =>
      if (free link : ℤ) > st.1 then ((free link : ℤ), some link) else st) st
    (∀ o, r.2 = some o → r.1 = free o) ∧ st.1 ≤ r.1 ∧ ∀ o ∈ l, (free o : ℤ) ≤ r.1 := by
  induction l generalizing st with
  | nil => exact ⟨hst, le_rfl, fun o ho => absurd ho not_mem_nil⟩
  | cons x l ih =>
    simp only [foldl_cons]
    by_cases hx : (free x : ℤ) > st.1
    · rw [if_pos hx]
      obtain ⟨hval, hle, hall⟩ := ih ((free x : ℤ), some x) (by simp)
      refine ⟨hval, hx.le.trans hle, fun o ho => ?_⟩
      rcases mem_cons.mp ho with rfl | ho
      · exact hle
      · exact hall o ho
    · rw [if_neg hx]
      obtain ⟨hval, hle, hall⟩ := ih st hst
      refine ⟨hval, hle, fun o ho => ?_⟩
      rcases mem_cons.mp ho with rfl | ho
      · exact (not_lt.mp hx).trans hle
      · exact hall o ho

/-- The candidate that is picked has at least as many free virtual channels as any other. -/
theorem free_le_of_pickMostFree {free : ℕ → ℕ} {candidates : List ℕ} {link : ℕ}
    (h : (pickMostFree free candidates).2 = some link) {o : ℕ} (ho : o ∈ candidates) :
    free o ≤ free link := by
  obtain ⟨hval, -, hall⟩ := foldl_mostFree free candidates (-1, none) (by simp)
  have hmax := hall o ho
  rw [hval link h] at hmax
  exact_mod_cast hmax

/-! ## A state in which one link is free -/

/-- A channel with no idle virtual channel. -/
def busyChannel (net : GarnetNetwork) : Channel :=
  { net.initChannel with
    m_outvc_state := fun vc => (net.initChannel.m_outvc_state vc).setState .ACTIVE_ 0 }

/-- Only the virtual channels behind link `l` are idle. -/
def onlyFree (net : GarnetNetwork) (l : ℕ) : NetState :=
  { net.init (fun _ _ => none) (fun _ _ => none) [] with
    chan := fun k => if k = l then net.initChannel else busyChannel net }

theorem getNumFreeVCs_onlyFree (l k vnet : ℕ) :
    getNumFreeVCs net (onlyFree net l) k vnet = if k = l then net.m_vcs_per_vnet else 0 := by
  have hidle : ∀ vc, is_vc_idle (onlyFree net l) k vc = decide (k = l) := by
    intro vc
    by_cases hk : k = l
    · simp only [is_vc_idle, onlyFree, hk, decide_true]
      rfl
    · simp only [is_vc_idle, onlyFree, hk, decide_false]
      rfl
  rw [getNumFreeVCs]
  split_ifs with hk
  · rw [countP_eq_length.mpr (fun vc _ => by rw [hidle, decide_eq_true hk]), vcsOf,
      length_map, length_range]
  · rw [countP_eq_zero]
    intro vc _
    rw [hidle, decide_eq_false hk]
    exact Bool.false_ne_true

theorem outLink_inj (hnet : Wired net) {o o' : ℕ} (ho : o ∈ matchingLinks net r dest)
    (ho' : o' ∈ matchingLinks net r dest) (h : net.outLink r o = net.outLink r o') : o = o' := by
  have hget : ∀ {k}, k ∈ matchingLinks net r dest →
      ∃ q, (net.m_output_unit r)[k]? = some q ∧ net.outLink r k = q.m_out_link := by
    intro k hk
    have hlt : k < (net.m_output_unit r).length := mem_range.mp (mem_filter.mp hk).1
    refine ⟨_, getElem?_eq_getElem hlt, ?_⟩
    rw [GarnetNetwork.outLink, getElem?_eq_getElem hlt]
  obtain ⟨q, hq, hl⟩ := hget ho
  obtain ⟨q', hq', hl'⟩ := hget ho'
  rw [hl, hl'] at h
  exact hnet.outport_inj r o o' q q' hq hq' h

/-- A link of least weight is taken when nothing is free behind the others. -/
theorem lookupRoutingTable_onlyFree (hnet : Wired net) {o : ℕ} (ho : LeastWeight net r dest o)
    (vnet : ℕ) :
    lookupRoutingTable net (onlyFree net (net.outLink r o)) r vnet dest = .ok o := by
  have hmem := mem_output_link_candidates.mpr ho
  obtain ⟨x, hx, hpick⟩ := pickMostFree_mem
    (fun link => getNumFreeVCs net (onlyFree net (net.outLink r o)) (net.outLink r link) vnet)
    (ne_nil_of_mem hmem)
  have hmax := free_le_of_pickMostFree hpick hmem
  simp only [getNumFreeVCs_onlyFree, if_true] at hmax
  obtain rfl : x = o := by
    by_contra hne
    have hlink : net.outLink r x ≠ net.outLink r o :=
      fun h => hne (outLink_inj hnet (mem_output_link_candidates.mp hx).1 ho.1 h)
    rw [if_neg hlink] at hmax
    have := net.vcs_pos
    omega
  simp only [lookupRoutingTable, hpick]
  rfl

/-- **When routes do not depend on congestion.** For every router, every routing and weight
table and every destination, the calls of `lookupRoutingTable` for a virtual network, ordered
or not, give the same result in all states of the output virtual channels exactly if no two
links share the least weight. -/
theorem route_independent_of_congestion (net : GarnetNetwork) (hnet : Wired net) (r vnet : ℕ)
    (dest : NetDest) :
    (∀ s s' : NetState,
      lookupRoutingTable net s r vnet dest = lookupRoutingTable net s' r vnet dest)
    ↔ ∀ o o', LeastWeight net r dest o → LeastWeight net r dest o' → o = o' := by
  constructor
  · intro h o o' ho ho'
    have heq := h (onlyFree net (net.outLink r o)) (onlyFree net (net.outLink r o'))
    rw [lookupRoutingTable_onlyFree hnet ho, lookupRoutingTable_onlyFree hnet ho',
      Except.ok.injEq] at heq
    exact heq
  · intro h s s'
    simp only [lookupRoutingTable]
    by_cases hnil : output_link_candidates net r dest = []
    · rw [hnil]
      rfl
    · obtain ⟨o, ho, hpick⟩ := pickMostFree_mem
        (fun link => getNumFreeVCs net s (net.outLink r link) vnet) hnil
      obtain ⟨o', ho', hpick'⟩ := pickMostFree_mem
        (fun link => getNumFreeVCs net s' (net.outLink r link) vnet) hnil
      rw [hpick, hpick', h o o' (mem_output_link_candidates.mp ho)
        (mem_output_link_candidates.mp ho')]

end Lookup

/-! ## `Mesh_westfirst` -/

/-- The internal links of `Mesh_westfirst.py`: those of `Mesh_XY.py` in the same order, with
weight 1 to the West and 2 in the other directions, and without names for the ports. -/
def MeshSize.westfirst_int_links (m : MeshSize) (link_latency : ℕ) : List BasicIntLink :=
  (m.int_links link_latency).map (fun l =>
    { l with
      src_outport := .other ""
      dst_inport := .other ""
      m_weight := if l.src_outport = .West then 1 else 2 })

/-- `Mesh_westfirst.makeTopology`. -/
def Mesh_westfirst (m : MeshSize) (link_latency : ℕ) : Topology where
  m_nodes := m.nodes.length
  m_number_of_switches := m.num_routers
  m_ext_link_vector := m.ext_links link_latency
  m_int_link_vector := m.westfirst_int_links link_latency
  ext_nodes := (Mesh_XY m link_latency).ext_nodes
  ext_routers := (Mesh_XY m link_latency).ext_routers
  ext_weights := (Mesh_XY m link_latency).ext_weights
  int_routers := by
    intro l hl
    obtain ⟨l', hl', rfl⟩ := mem_map.mp hl
    exact (Mesh_XY m link_latency).int_routers l' hl'

/-- The two by two mesh of `Mesh_westfirst`, with node `k` at router `k`. Its switches are the
four inputs, the four outputs and the four routers. -/
def westfirstMesh : Topology := Mesh_westfirst .twoByTwo 1

/-- The distances to node 3, which is at router 3, as far as they matter. -/
def toNodeThree (k : ℕ) : ℕ := [0, 0, 0, 0, 10000, 10000, 10000, 0, 5, 3, 3, 1].getD k 0

theorem westfirstMesh_dist : 10000 ≤ westfirstMesh.dist 4 7 ∧ westfirstMesh.dist 8 7 = 5
    ∧ westfirstMesh.dist 9 7 = 3 ∧ westfirstMesh.dist 10 7 = 3 := by
  have hS : westfirstMesh.num_switches = 12 := by decide
  have hspec := westfirstMesh.dist_spec.1
  have hmem : ∀ k < 12, k ∈ {k | k < westfirstMesh.num_switches} := fun k hk => by
    rw [hS]
    exact hk
  -- no link lowers `toNodeThree` by more than its weight
  have hstep : ∀ i < 12, ∀ k < 12,
      toNodeThree i ≤ westfirstMesh.topology_weights i k + toNodeThree k := by decide
  have hlower : ∀ i < 12, toNodeThree i ≤ westfirstMesh.dist i 7 := by
    intro i hi
    refine Walk.potential_le (S := {k | k < westfirstMesh.num_switches}) (φ := toNodeThree) ?_ ?_
      (hmem i hi) (hspec.walk i (hmem i hi) 7 (hmem 7 (by decide)))
    · intro i hi
      exact hstep i (hS ▸ hi) 7 (by decide)
    · intro i hi k hk
      exact hstep i (hS ▸ hi) k (hS ▸ hk)
  -- and the links along the two sides of the square reach it
  have h11 := hspec.le_edge (hmem 11 (by decide)) (hmem 7 (by decide))
  have h9 := hspec.le_via (hmem 9 (by decide)) (hmem 11 (by decide)) (hmem 7 (by decide))
  have h10 := hspec.le_via (hmem 10 (by decide)) (hmem 11 (by decide)) (hmem 7 (by decide))
  have h8 := hspec.le_via (hmem 8 (by decide)) (hmem 9 (by decide)) (hmem 7 (by decide))
  have w11 : westfirstMesh.topology_weights 11 7 = 1 := by decide
  have w9 : westfirstMesh.topology_weights 9 11 = 2 := by decide
  have w10 : westfirstMesh.topology_weights 10 11 = 2 := by decide
  have w8 : westfirstMesh.topology_weights 8 9 = 2 := by decide
  have l4 : 10000 ≤ westfirstMesh.dist 4 7 := hlower 4 (by decide)
  have l8 : 5 ≤ westfirstMesh.dist 8 7 := hlower 8 (by decide)
  have l9 : 3 ≤ westfirstMesh.dist 9 7 := hlower 9 (by decide)
  have l10 : 3 ≤ westfirstMesh.dist 10 7 := hlower 10 (by decide)
  omega

/-- The default options with ordered virtual networks. -/
def orderedParams : Params := { Params.default 2 with m_ordered := fun _ => true }

/-- `westfirstMesh` with ordered virtual networks. -/
def orderedNet : GarnetNetwork := westfirstMesh.network orderedParams (by decide)

/-- At router 0 the link to router 1 and the link to router 2 have the least weight of the
links to node 3. -/
theorem orderedNet_leastWeight {j : ℕ} (hj : j = 9 ∨ j = 10) :
    ∃ o l, LeastWeight orderedNet 0 {3} o ∧ westfirstMesh.madeLinks[l]? = some (8, j)
      ∧ (orderedNet.m_output_unit 0)[o]? = some (westfirstMesh.outPortOf (8, j) l) := by
  obtain ⟨h4, h8, h9, h10⟩ := westfirstMesh_dist
  have hweight : westfirstMesh.topology_weights 8 j = 2 := by
    rcases hj with rfl | rfl <;> decide
  have hmade : (8, j) ∈ westfirstMesh.madeLinks := by
    rcases hj with rfl | rfl <;> decide
  have hdist : westfirstMesh.dist j 7 = 3 := by
    rcases hj with rfl | rfl
    · exact h9
    · exact h10
  obtain ⟨l, hl⟩ := getElem?_of_mem hmade
  obtain ⟨o, ho⟩ := exists_out_port (p := orderedParams) (by decide) hl
  -- the weight of a matching link is that of the pair it was made for
  have hw : ∀ {o' j' l' : ℕ}, westfirstMesh.madeLinks[l']? = some (8, j') →
      (orderedNet.m_output_unit 0)[o']? = some (westfirstMesh.outPortOf (8, j') l') →
      m_weight_table orderedNet 0 o' = westfirstMesh.topology_weights 8 j' := by
    intro o' j' l' hl' ho'
    simp only [m_weight_table, ho', (outPortOf_fields _ _ l').2]
    exact entry_weight_of_madeLink (mem_of_getElem? hl')
  refine ⟨o, l, ⟨?_, ?_, ?_⟩, hl, ho⟩
  · refine mem_matchingLinks.mpr ⟨j, l, hl, ho, mem_tableOf.mpr ⟨by decide, ?_⟩⟩
    change westfirstMesh.topology_weights 8 j + westfirstMesh.dist j 7 = westfirstMesh.dist 8 7
    omega
  · rw [hw hl ho, hweight]
    decide
  · intro o' ho'
    obtain ⟨j', l', hl', hport, htable⟩ := mem_matchingLinks.mp ho'
    rw [hw hl ho, hw hl' hport, hweight]
    -- only the link to node 0 weighs less, and it does not lead to node 3
    have hsmall : ∀ k < 12, (8, k) ∈ westfirstMesh.madeLinks → k ≠ 4 →
        2 ≤ westfirstMesh.topology_weights 8 k := by decide
    have hS : westfirstMesh.num_switches = 12 := by decide
    have hmem' := mem_of_getElem? hl'
    refine hsmall j' (hS ▸ (mem_madeLinks.mp hmem').1.2) hmem' ?_
    rintro rfl
    have hentry : 3 ∈ westfirstMesh.tableOf (8, 4) := htable
    have hsum := (mem_tableOf.mp hentry).2
    rw [show 3 + westfirstMesh.m_nodes = 7 from rfl] at hsum
    omega

theorem orderedNet_two_leastWeight :
    ∃ o o', LeastWeight orderedNet 0 {3} o ∧ LeastWeight orderedNet 0 {3} o' ∧ o ≠ o' := by
  obtain ⟨o, l, ho, hl, hport⟩ := orderedNet_leastWeight (.inl rfl)
  obtain ⟨o', l', ho', hl', hport'⟩ := orderedNet_leastWeight (.inr rfl)
  refine ⟨o, o', ho, ho', ?_⟩
  rintro rfl
  have heq := Option.some.inj (hport.symm.trans hport')
  have hll : l = l' := by
    have := congrArg OutPort.m_out_link heq
    rwa [outPortOf_m_out_link, outPortOf_m_out_link] at this
  subst hll
  rw [hl] at hl'
  simp at hl'

/-- The routes from router 0 to node 3 depend on the state. -/
theorem route_independent_of_congestion_westfirst : ¬ ∀ s s' : NetState,
    lookupRoutingTable orderedNet s 0 0 {3} = lookupRoutingTable orderedNet s' 0 0 {3} := by
  intro h
  obtain ⟨o, o', ho, ho', hne⟩ := orderedNet_two_leastWeight
  exact hne ((route_independent_of_congestion orderedNet (network_wired _ _ _) 0 0
    {3}).mp h o o' ho ho')

/-- **Two routes in an ordered virtual network.** From router 0 of the two by two mesh of
`Mesh_westfirst`, in an ordered virtual network, packets for node 3 leave over different
links when different virtual channels are free. -/
theorem ordered_vnet_two_routes : orderedNet.m_ordered 0 = true
    ∧ ∃ s s' o o', lookupRoutingTable orderedNet s 0 0 {3} = .ok o
      ∧ lookupRoutingTable orderedNet s' 0 0 {3} = .ok o' ∧ o ≠ o' := by
  obtain ⟨o, o', ho, ho', hne⟩ := orderedNet_two_leastWeight
  have hnet : Wired orderedNet := network_wired _ _ _
  exact ⟨rfl, _, _, o, o', lookupRoutingTable_onlyFree hnet ho 0,
    lookupRoutingTable_onlyFree hnet ho' 0, hne⟩

end Bindu.Garnet
