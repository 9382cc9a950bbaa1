/-
What `Topology::createLinks` leaves behind.

`createLinks` walks over all pairs of switches and calls one of the three `make...Link`
functions for every link of the topology; each of them appends to the list of links and to
the port lists of one or two routers. This file says once what the result is, as a function
of the list of made links, and derives from it the facts about ports, links and network
interfaces that everything dynamic rests on (`Wired`): a link has one reader and one
writer, ports and links determine each other, and between two routers there is at most one
link in each direction, so the search for the upstream output unit in the bubble code finds
the other end of the link.
-/
import Bindu.Garnet.State

namespace Bindu.Garnet

open Function List

theorem getElem?_snoc {α : Type} {l : List α} {x y : α} {k : ℕ} (h : (l ++ [x])[k]? = some y) :
    (k = l.length ∧ x = y) ∨ l[k]? = some y := by
  rcases lt_trichotomy k l.length with hk | rfl | hk
  · rw [getElem?_append_left hk] at h
    exact .inr h
  · simp at h
    exact .inl ⟨rfl, h⟩
  · rw [getElem?_eq_none (by simp; omega)] at h
    simp at h

variable {l : BasicExtLink} {ij : ℕ × ℕ} {i j : ℕ}

namespace Topology

variable (T : Topology)

/-! ## The link map -/

theorem foldl_addLink_some (calls : List ((ℕ × ℕ) × LinkEntry)) (m : LinkMap) (x : ℕ × ℕ)
    (e : LinkEntry)
    (h : calls.foldl addLink m x = some e) :
    (x, e) ∈ calls ∨ m x = some e := by
  induction calls generalizing m with
  | nil => exact .inr h
  | cons c calls ih =>
    rcases ih _ h with hmem | hm
    · exact .inl (mem_cons_of_mem _ hmem)
    · by_cases hx : x = c.1
      · subst hx
        simp only [addLink, update_self, Option.some.injEq] at hm
        subst hm
        exact .inl (mem_cons_self ..)
      · rw [addLink, update_of_ne hx] at hm
        exact .inr hm

theorem foldl_addLink_isSome (calls : List ((ℕ × ℕ) × LinkEntry)) (m : LinkMap) (x : ℕ × ℕ)
    (h : (∃ e, (x, e) ∈ calls) ∨ (m x).isSome) :
    (calls.foldl addLink m x).isSome := by
  induction calls generalizing m with
  | nil => simpa using h
  | cons c calls ih =>
    refine ih _ ?_
    by_cases hx : x = c.1
    · exact .inr (by simp [addLink, hx])
    · rcases h with ⟨e, he⟩ | hm
      · rcases mem_cons.mp he with rfl | he
        · exact absurd rfl hx
        · exact .inl ⟨e, he⟩
      · exact .inr (by rwa [addLink, update_of_ne hx])

variable {T}

variable {e : LinkEntry} {x : ℕ × ℕ}

theorem mem_addLinkCalls_of_m_link_map (h : T.m_link_map x = some e) :
    (x, e) ∈ T.addLinkCalls := by
  rcases foldl_addLink_some _ _ _ _ h with h | h
  · exact h
  · simp at h

theorem exists_m_link_map_of_mem (h : (x, e) ∈ T.addLinkCalls) :
    ∃ e', T.m_link_map x = some e' ∧ (x, e') ∈ T.addLinkCalls := by
  obtain ⟨e', he'⟩ := Option.isSome_iff_exists.mp
    (foldl_addLink_isSome T.addLinkCalls (fun _ => none) x (.inl ⟨e, h⟩))
  exact ⟨e', he', mem_addLinkCalls_of_m_link_map he'⟩

/-- The three kinds of links: into the network, out of it, and inside. -/
theorem mem_addLinkCalls : (x, e) ∈ T.addLinkCalls ↔
      (∃ l ∈ T.m_ext_link_vector, x = (l.ext_node, l.int_node + 2 * T.m_nodes)
        ∧ e = ⟨l.m_latency, l.m_weight, .other "", .other ""⟩)
      ∨ (∃ l ∈ T.m_ext_link_vector, x = (l.int_node + 2 * T.m_nodes, l.ext_node + T.m_nodes)
        ∧ e = ⟨l.m_latency, l.m_weight, .other "", .other ""⟩)
      ∨ (∃ l ∈ T.m_int_link_vector, x = (l.src_node + 2 * T.m_nodes, l.dst_node + 2 * T.m_nodes)
        ∧ e = ⟨l.m_latency, l.m_weight, l.src_outport, l.dst_inport⟩) := by
  simp only [addLinkCalls, mem_append, mem_flatMap, mem_cons, Prod.mk.injEq,
    not_mem_nil, or_false, mem_map]
  constructor
  · rintro (⟨l, hl, ⟨rfl, rfl⟩ | ⟨rfl, rfl⟩⟩ | ⟨l, hl, rfl, rfl⟩)
    · exact .inl ⟨l, hl, rfl, rfl⟩
    · exact .inr (.inl ⟨l, hl, rfl, rfl⟩)
    · exact .inr (.inr ⟨l, hl, rfl, rfl⟩)
  · rintro (⟨l, hl, rfl, rfl⟩ | ⟨l, hl, rfl, rfl⟩ | ⟨l, hl, rfl, rfl⟩)
    · exact .inl ⟨l, hl, .inl ⟨rfl, rfl⟩⟩
    · exact .inl ⟨l, hl, .inr ⟨rfl, rfl⟩⟩
    · exact .inr ⟨l, hl, rfl, rfl⟩

theorem le_foldl_max (calls : List ((ℕ × ℕ) × LinkEntry)) (m : ℕ) :
    m ≤ calls.foldl (fun m call => max m (max call.1.1 call.1.2)) m
      ∧ ∀ c ∈ calls, c.1.1 ≤ calls.foldl (fun m call => max m (max call.1.1 call.1.2)) m
        ∧ c.1.2 ≤ calls.foldl (fun m call => max m (max call.1.1 call.1.2)) m := by
  induction calls generalizing m with
  | nil => simp
  | cons c calls ih =>
    obtain ⟨hm, hall⟩ := ih (max m (max c.1.1 c.1.2))
    refine ⟨(le_max_left _ _).trans hm, fun c' hc' => ?_⟩
    rcases mem_cons.mp hc' with rfl | hc'
    · exact ⟨((le_max_left _ _).trans (le_max_right _ _)).trans hm,
        ((le_max_right _ _).trans (le_max_right _ _)).trans hm⟩
    · exact hall c' hc'

theorem lt_num_switches (h : (x, e) ∈ T.addLinkCalls) :
    x.1 < T.num_switches ∧ x.2 < T.num_switches := by
  obtain ⟨h1, h2⟩ := (le_foldl_max T.addLinkCalls 0).2 _ h
  exact ⟨Nat.lt_succ_of_le h1, Nat.lt_succ_of_le h2⟩

theorem ext_node_lt (hl : l ∈ T.m_ext_link_vector) : l.ext_node < T.m_nodes :=
  mem_range.mp (T.ext_nodes.mem_iff.mp (mem_map_of_mem hl))

theorem exists_ext_link {n : ℕ} (hn : n < T.m_nodes) :
    ∃ l ∈ T.m_ext_link_vector, l.ext_node = n := by
  simpa using T.ext_nodes.mem_iff.mpr (mem_range.mpr hn)

theorem ext_link_unique {l l' : BasicExtLink} (hl : l ∈ T.m_ext_link_vector)
    (hl' : l' ∈ T.m_ext_link_vector) (h : l.ext_node = l'.ext_node) : l = l' :=
  inj_on_of_nodup_map (T.ext_nodes.nodup_iff.mpr nodup_range) hl hl' h

/-! ## The links that are made -/

theorem mem_madeLinks : (i, j) ∈ T.madeLinks ↔ (i < T.num_switches ∧ j < T.num_switches)
      ∧ 0 < T.topology_weights i j ∧ T.topology_weights i j ≠ INFINITE_LATENCY := by
  simp [madeLinks, entries]

theorem nodup_entries (n : ℕ) : (entries n).Nodup := by
  have h : entries n = (range n ×ˢ range n) := rfl
  rw [h]
  exact nodup_range.product nodup_range

theorem nodup_madeLinks : T.madeLinks.Nodup := (nodup_entries _).filter _

theorem exists_entry_of_madeLink (h : ij ∈ T.madeLinks) :
    ∃ e, T.m_link_map ij = some e ∧ T.topology_weights ij.1 ij.2 = e.m_weight := by
  obtain ⟨i, j⟩ := ij
  obtain ⟨-, hpos, hne⟩ := mem_madeLinks.mp h
  cases he : T.m_link_map (i, j) with
  | some e => exact ⟨e, rfl, by simp [topology_weights, he]⟩
  | none =>
    simp only [topology_weights, he] at hpos hne
    split at hne
    · simp_all
    · exact absurd rfl hne

theorem mem_madeLinks_of_entry (h : T.m_link_map (i, j) = some e)
    (hw : 0 < e.m_weight ∧ e.m_weight ≠ INFINITE_LATENCY) : (i, j) ∈ T.madeLinks := by
  refine mem_madeLinks.mpr ⟨lt_num_switches (mem_addLinkCalls_of_m_link_map h), ?_⟩
  simpa [topology_weights, h] using hw

/-- The only link that starts at the input switch of a controller, and the only one that ends at
its output switch. -/
theorem mem_addLinkCalls_ext (hl : l ∈ T.m_ext_link_vector) {i j : ℕ}
    (h : ((i, j), e) ∈ T.addLinkCalls) :
    (i = l.ext_node → j = l.int_node + 2 * T.m_nodes ∧ e.m_weight = l.m_weight)
      ∧ (j = l.ext_node + T.m_nodes →
          i = l.int_node + 2 * T.m_nodes ∧ e.m_weight = l.m_weight) := by
  have hlt := ext_node_lt hl
  rcases mem_addLinkCalls.mp h with ⟨l', hl', heq, rfl⟩ | ⟨l', hl', heq, rfl⟩ |
    ⟨l', hl', heq, rfl⟩ <;> obtain ⟨rfl, rfl⟩ := Prod.mk.inj heq
  · refine ⟨fun hi => ?_, fun hj => absurd hj (by omega)⟩
    rw [ext_link_unique hl hl' hi.symm]
    exact ⟨rfl, rfl⟩
  · refine ⟨fun hi => absurd hi (by omega), fun hj => ?_⟩
    rw [ext_link_unique hl hl' (by omega)]
    exact ⟨rfl, rfl⟩
  · exact ⟨fun hi => absurd hi (by omega), fun hj => absurd hj (by omega)⟩

/-- The link into the network of a controller, and the link out of it, are made, and they
are the only ones that name its switches. -/
theorem ext_madeLinks (hl : l ∈ T.m_ext_link_vector) :
    (l.ext_node, l.int_node + 2 * T.m_nodes) ∈ T.madeLinks
      ∧ (l.int_node + 2 * T.m_nodes, l.ext_node + T.m_nodes) ∈ T.madeLinks
      ∧ (∀ j, (l.ext_node, j) ∈ T.madeLinks → j = l.int_node + 2 * T.m_nodes)
      ∧ (∀ i, (i, l.ext_node + T.m_nodes) ∈ T.madeLinks → i = l.int_node + 2 * T.m_nodes) := by
  obtain ⟨e, he, hmem⟩ := exists_m_link_map_of_mem (mem_addLinkCalls.mpr (.inl ⟨l, hl, rfl, rfl⟩))
  obtain ⟨e', he', hmem'⟩ := exists_m_link_map_of_mem
    (mem_addLinkCalls.mpr (.inr (.inl ⟨l, hl, rfl, rfl⟩)))
  refine ⟨mem_madeLinks_of_entry he ?_, mem_madeLinks_of_entry he' ?_, ?_, ?_⟩
  · rw [((mem_addLinkCalls_ext hl hmem).1 rfl).2]
    exact T.ext_weights l hl
  · rw [((mem_addLinkCalls_ext hl hmem').2 rfl).2]
    exact T.ext_weights l hl
  · intro j hj
    obtain ⟨e, he, -⟩ := exists_entry_of_madeLink hj
    exact ((mem_addLinkCalls_ext hl (mem_addLinkCalls_of_m_link_map he)).1 rfl).1
  · intro i hi
    obtain ⟨e, he, -⟩ := exists_entry_of_madeLink hi
    exact ((mem_addLinkCalls_ext hl (mem_addLinkCalls_of_m_link_map he)).2 rfl).1

/-- A made link runs from a node to a router, from a router to a node or between two
routers. -/
theorem madeLink_kind (h : ij ∈ T.madeLinks) :
    (ij.1 < T.m_nodes ∧ ∃ r < T.m_number_of_switches, ij.2 = r + 2 * T.m_nodes)
      ∨ (∃ r < T.m_number_of_switches, ij.1 = r + 2 * T.m_nodes
        ∧ ∃ n < T.m_nodes, ij.2 = n + T.m_nodes)
      ∨ (∃ r < T.m_number_of_switches, ij.1 = r + 2 * T.m_nodes
        ∧ ∃ r' < T.m_number_of_switches, ij.2 = r' + 2 * T.m_nodes) := by
  obtain ⟨e, he, -⟩ := exists_entry_of_madeLink h
  rcases mem_addLinkCalls.mp (mem_addLinkCalls_of_m_link_map he) with
    ⟨l, hl, rfl, -⟩ | ⟨l, hl, rfl, -⟩ | ⟨l, hl, rfl, -⟩
  · exact .inl ⟨ext_node_lt hl, _, T.ext_routers l hl, rfl⟩
  · exact .inr (.inl ⟨_, T.ext_routers l hl, rfl, _, ext_node_lt hl, rfl⟩)
  · exact .inr (.inr ⟨_, (T.int_routers l hl).1, rfl, _, (T.int_routers l hl).2, rfl⟩)

variable (T)

/-- The `LinkEntry` of a made link. -/
def entry (ij : ℕ × ℕ) : LinkEntry := (T.m_link_map ij).getD ⟨0, 0, .Unknown, .Unknown⟩

/-- The link object of a made link. -/
def linkOf (ij : ℕ × ℕ) : NetworkLink :=
  if ij.1 < T.m_nodes then
    ⟨(T.entry ij).m_latency, -1, -1, .router (ij.2 - 2 * T.m_nodes), .ni ij.1⟩
  else if ij.2 < 2 * T.m_nodes then
    ⟨(T.entry ij).m_latency, -1, -1, .ni (ij.2 - T.m_nodes), .router (ij.1 - 2 * T.m_nodes)⟩
  else
    ⟨(T.entry ij).m_latency, ↑(ij.1 - 2 * T.m_nodes), ↑(ij.2 - 2 * T.m_nodes),
      .router (ij.2 - 2 * T.m_nodes), .router (ij.1 - 2 * T.m_nodes)⟩

/-- The input port at the end of a made link with number `id`. -/
def inPortOf (ij : ℕ × ℕ) (id : ℕ) : InPort :=
  if ij.1 < T.m_nodes then
    ⟨.Local, id, -1⟩
  else
    ⟨(T.entry ij).dst_inport_dirn, id, ↑(ij.1 - 2 * T.m_nodes)⟩

/-- The routing table entry of a made link. -/
def tableOf (ij : ℕ × ℕ) : NetDest :=
  T.shortest_path_to_node ij.1 ij.2 T.topology_weights T.dist

/-- The output port at the start of a made link with number `id`. -/
def outPortOf (ij : ℕ × ℕ) (id : ℕ) : OutPort :=
  if ij.2 < 2 * T.m_nodes then
    ⟨.Local, id, -1, T.tableOf ij, (T.entry ij).m_weight⟩
  else
    ⟨(T.entry ij).src_outport_dirn, id, ↑(ij.2 - 2 * T.m_nodes), T.tableOf ij,
      (T.entry ij).m_weight⟩

/-- The wiring after the links of `L` have been made, in this order. -/
structure Built (L : List (ℕ × ℕ)) (net : Wiring) : Prop where
  links : net.m_networklinks = L.map T.linkOf
  ins : ∀ r, net.m_input_unit r
    = (L.zipIdx.filter (fun p => p.1.2 = r + 2 * T.m_nodes)).map (fun p => T.inPortOf p.1 p.2)
  outs : ∀ r, net.m_output_unit r
    = (L.zipIdx.filter (fun p => p.1.1 = r + 2 * T.m_nodes)).map (fun p => T.outPortOf p.1 p.2)
  outNet : ∀ n < T.m_nodes, ∀ r l, L[l]? = some (n, r) → (∀ r', (n, r') ∈ L → r' = r) → L.Nodup →
    net.outNetLink n = l ∧ net.m_router_id n = r - 2 * T.m_nodes
  inNet : ∀ n < T.m_nodes, ∀ r l, L[l]? = some (r, n + T.m_nodes) →
    (∀ r', (r', n + T.m_nodes) ∈ L → r' = r) → L.Nodup → net.inNetLink n = l

variable {T}

theorem Built.nil : T.Built [] Wiring.empty := by
  constructor <;> simp [Wiring.empty]

theorem makeLink_spec (net : Wiring) (hij : (i, j) ∈ T.madeLinks) :
    let net' := T.makeLink net i j (T.tableOf (i, j))
    let id := net.m_networklinks.length
    net'.m_networklinks = net.m_networklinks ++ [T.linkOf (i, j)]
      ∧ (∀ r, net'.m_input_unit r = net.m_input_unit r
          ++ if j = r + 2 * T.m_nodes then [T.inPortOf (i, j) id] else [])
      ∧ (∀ r, net'.m_output_unit r = net.m_output_unit r
          ++ if i = r + 2 * T.m_nodes then [T.outPortOf (i, j) id] else [])
      ∧ (∀ n < T.m_nodes, net'.outNetLink n = if i = n then id else net.outNetLink n)
      ∧ (∀ n < T.m_nodes, net'.m_router_id n
          = if i = n then j - 2 * T.m_nodes else net.m_router_id n)
      ∧ (∀ n < T.m_nodes, net'.inNetLink n
          = if j = n + T.m_nodes then id else net.inNetLink n) := by
  obtain ⟨e, he, -⟩ := exists_entry_of_madeLink hij
  have hentry : T.entry (i, j) = e := by simp [entry, he]
  simp only [makeLink, he]
  rcases madeLink_kind hij with ⟨hi, r0, -, hj⟩ | ⟨r0, -, hi, n0, hn0, hj⟩ |
    ⟨r0, -, hi, r1, -, hj⟩ <;> simp only at hi hj
  · have hr : ∀ r, i ≠ r + 2 * T.m_nodes := fun r => by omega
    have hn : ∀ n < T.m_nodes, j ≠ n + T.m_nodes := fun n hn => by omega
    subst hj
    simp only [hi, if_true, Wiring.makeExtInLink, Wiring.addLink, Wiring.addInPort, linkOf,
      inPortOf, hentry, update_apply]
    refine ⟨by simp, fun r => ?_, fun r => by simp [hr r], fun n hn => ?_, fun n hn => ?_, ?_⟩
    · rcases eq_or_ne r r0 with rfl | h
      · simp
      · simp [h, h.symm]
    · simp [eq_comm]
    · simp [eq_comm]
    · exact fun n hn' => by simp [hn n hn']
  · have hr : ∀ r, j ≠ r + 2 * T.m_nodes := fun r => by omega
    have hn : ∀ n < T.m_nodes, i ≠ n := fun n hn => by omega
    have hi' : ¬ i < T.m_nodes := by omega
    have hj' : j < 2 * T.m_nodes := by omega
    simp only [hi', hj', if_false, if_true, Wiring.makeExtOutLink, Wiring.addLink,
      Wiring.addOutPort, linkOf, outPortOf, hentry, update_apply]
    subst hi hj
    refine ⟨by simp, fun r => by simp [hr r], fun r => ?_, fun n hn' => by simp [hn n hn'],
      fun n hn' => by simp [hn n hn'], fun n hn' => by simp [eq_comm]⟩
    rcases eq_or_ne r r0 with rfl | h
    · simp
    · simp [h, h.symm]
  · have hn : ∀ n < T.m_nodes, i ≠ n := fun n hn => by omega
    have hm : ∀ n < T.m_nodes, j ≠ n + T.m_nodes := fun n hn => by omega
    have hi' : ¬ i < T.m_nodes := by omega
    have hj' : ¬ j < 2 * T.m_nodes := by omega
    simp only [hi', hj', if_false, Wiring.makeInternalLink, Wiring.addLink, Wiring.addInPort,
      Wiring.addOutPort, linkOf, inPortOf, outPortOf, hentry, update_apply]
    subst hi hj
    refine ⟨by simp, fun r => ?_, fun r => ?_, fun n hn' => by simp [hn n hn'],
      fun n hn' => by simp [hn n hn'], fun n hn' => by simp [hm n hn']⟩
    · rcases eq_or_ne r r1 with rfl | h
      · simp
      · simp [h, h.symm]
    · rcases eq_or_ne r r0 with rfl | h
      · simp
      · simp [h, h.symm]

theorem Built.makeLink {L : List (ℕ × ℕ)} {net : Wiring} (h : T.Built L net)
    (hij : ij ∈ T.madeLinks) : T.Built (L ++ [ij]) (T.makeLink net ij.1 ij.2 (T.tableOf ij)) := by
  obtain ⟨i, j⟩ := ij
  have hlen : net.m_networklinks.length = L.length := by rw [h.links, length_map]
  obtain ⟨hlinks, hins, houts, hout, hrouter, hin⟩ := makeLink_spec net hij
  rw [hlen] at hins houts hout hin
  refine ⟨?_, fun r => ?_, fun r => ?_, fun n hn r l hl huniq hnd => ?_,
    fun n hn r l hl huniq hnd => ?_⟩
  · rw [hlinks, h.links, map_append, map_singleton]
  · rw [hins r, h.ins r, zipIdx_append, filter_append, map_append]
    split <;> simp_all
  · rw [houts r, h.outs r, zipIdx_append, filter_append, map_append]
    split <;> simp_all
  · rw [hout n hn, hrouter n hn]
    rcases getElem?_snoc hl with ⟨rfl, heq⟩ | hl'
    · obtain ⟨rfl, rfl⟩ := Prod.mk.inj heq
      simp
    · have hne : i ≠ n := by
        rintro rfl
        obtain rfl : j = r := huniq j (by simp)
        exact (nodup_append.mp hnd).2.2 _ (mem_of_getElem? hl') _ (by simp) rfl
      simp only [hne, if_false]
      exact h.outNet n hn r l hl' (fun r' hr' => huniq r' (mem_append_left _ hr'))
        (nodup_append.mp hnd).1
  · rw [hin n hn]
    rcases getElem?_snoc hl with ⟨rfl, heq⟩ | hl'
    · obtain ⟨rfl, rfl⟩ := Prod.mk.inj heq
      simp
    · have hne : j ≠ n + T.m_nodes := by
        rintro rfl
        obtain rfl : i = r := huniq i (by simp)
        exact (nodup_append.mp hnd).2.2 _ (mem_of_getElem? hl') _ (by simp) rfl
      simp only [hne, if_false]
      exact h.inNet n hn r l hl' (fun r' hr' => huniq r' (mem_append_left _ hr'))
        (nodup_append.mp hnd).1

/-- **`createLinks` builds the wiring of its made links.** -/
theorem createLinks_built (T : Topology) : T.Built T.madeLinks T.createLinks := by
  have key : ∀ L, (∀ ij ∈ L, ij ∈ T.madeLinks) → T.Built L (L.foldl (fun net ij =>
      T.makeLink net ij.1 ij.2 (T.tableOf ij)) Wiring.empty) := by
    intro L
    induction L using reverseRecOn with
    | nil => exact fun _ => Built.nil
    | append_singleton L ij ih =>
      intro hL
      rw [foldl_append]
      exact (ih (fun x hx => hL x (mem_append_left _ hx))).makeLink (hL ij (by simp))
  exact key _ (fun _ h => h)

end Topology

/-! ## Port lists

The ports of a router are the made links that start, or end, at it, in the order they were
made. -/

section Ports

variable {α β : Type} {L : List α} {P : α × ℕ → Bool} {f : α × ℕ → β}

theorem exists_of_getElem?_ports {o : ℕ} {q : β} (h : ((L.zipIdx.filter P).map f)[o]? = some q) :
    ∃ x l, L[l]? = some x ∧ P (x, l) = true ∧ q = f (x, l) := by
  obtain ⟨⟨x, l⟩, hmem, rfl⟩ := mem_map.mp (mem_of_getElem? h)
  obtain ⟨hmem, hP⟩ := mem_filter.mp hmem
  exact ⟨x, l, mk_mem_zipIdx_iff_getElem?.mp hmem, hP, rfl⟩

theorem exists_getElem?_ports {x : α} {l : ℕ} (h : L[l]? = some x) (hP : P (x, l) = true) :
    ∃ o : ℕ, ((L.zipIdx.filter P).map f)[o]? = some (f (x, l)) := by
  refine getElem?_of_mem (mem_map_of_mem (mem_filter.mpr ⟨?_, hP⟩))
  exact mk_mem_zipIdx_iff_getElem?.mpr h

theorem ports_inj (id : β → ℕ) (hid : ∀ p, id (f p) = p.2) {o o' : ℕ} {q q' : β}
    (h : ((L.zipIdx.filter P).map f)[o]? = some q)
    (h' : ((L.zipIdx.filter P).map f)[o']? = some q') (heq : id q = id q') : o = o' := by
  have hnd : (((L.zipIdx.filter P).map f).map id).Nodup := by
    have hmap : ((L.zipIdx.filter P).map f).map id = (L.zipIdx.filter P).map Prod.snd := by
      rw [map_map]
      exact map_congr_left (fun p _ => hid p)
    rw [hmap]
    refine (filter_sublist.map Prod.snd).nodup ?_
    rw [zipIdx_map_snd]
    exact nodup_range'
  have hid1 : (((L.zipIdx.filter P).map f).map id)[o]? = some (id q) := by
    rw [getElem?_map, h, Option.map_some]
  have hid2 : (((L.zipIdx.filter P).map f).map id)[o']? = some (id q) := by
    rw [List.getElem?_map, h', Option.map_some, heq]
  obtain ⟨ho, -⟩ := List.getElem?_eq_some_iff.mp hid1
  exact (List.getElem?_inj ho hnd).mp (hid1.trans hid2.symm)

end Ports

namespace Topology

variable {T : Topology} {p : Params} {shape : 0 < p.num_rows →
  p.num_rows * (T.m_number_of_switches / p.num_rows) = T.m_number_of_switches}

theorem getElem?_m_output_unit {r o : ℕ} {q : OutPort}
    (h : ((T.network p shape).m_output_unit r)[o]? = some q) :
    ∃ j l, T.madeLinks[l]? = some (r + 2 * T.m_nodes, j)
      ∧ q = T.outPortOf (r + 2 * T.m_nodes, j) l := by
  change (T.createLinks.m_output_unit r)[o]? = some q at h
  rw [T.createLinks_built.outs] at h
  obtain ⟨⟨i, j⟩, l, hl, hP, rfl⟩ := exists_of_getElem?_ports h
  obtain rfl : i = r + 2 * T.m_nodes := by simpa using hP
  exact ⟨j, l, hl, rfl⟩

theorem getElem?_m_input_unit {r i : ℕ} {q : InPort}
    (h : ((T.network p shape).m_input_unit r)[i]? = some q) :
    ∃ i l, T.madeLinks[l]? = some (i, r + 2 * T.m_nodes)
      ∧ q = T.inPortOf (i, r + 2 * T.m_nodes) l := by
  change (T.createLinks.m_input_unit r)[i]? = some q at h
  rw [T.createLinks_built.ins] at h
  obtain ⟨⟨i, j⟩, l, hl, hP, rfl⟩ := exists_of_getElem?_ports h
  obtain rfl : j = r + 2 * T.m_nodes := by simpa using hP
  exact ⟨i, l, hl, rfl⟩

variable (shape) in
theorem exists_out_port {r j l : ℕ} (hl : T.madeLinks[l]? = some (r + 2 * T.m_nodes, j)) :
    ∃ o : ℕ, ((T.network p shape).m_output_unit r)[o]?
      = some (T.outPortOf (r + 2 * T.m_nodes, j) l) := by
  change ∃ o : ℕ, (T.createLinks.m_output_unit r)[o]? = _
  rw [T.createLinks_built.outs]
  exact exists_getElem?_ports hl (by simp)

variable (shape) in
theorem exists_in_port {r i l : ℕ} (hl : T.madeLinks[l]? = some (i, r + 2 * T.m_nodes)) :
    ∃ k : ℕ, ((T.network p shape).m_input_unit r)[k]?
      = some (T.inPortOf (i, r + 2 * T.m_nodes) l) := by
  change ∃ o : ℕ, (T.createLinks.m_input_unit r)[o]? = _
  rw [T.createLinks_built.ins]
  exact exists_getElem?_ports hl (by simp)

theorem getElem?_m_networklinks {l : ℕ} :
    (T.network p shape).m_networklinks[l]? = T.madeLinks[l]?.map T.linkOf := by
  change T.createLinks.m_networklinks[l]? = _
  rw [T.createLinks_built.links, getElem?_map]

end Topology

/-! ## Well-formed wiring -/

/-- What the running network relies on. Ports and links determine each other, a network
interface has its own two links, and an input port that is not `Local` is the far end of
the only output port of its source router that leads to this router. -/
structure Wired (net : GarnetNetwork) : Prop where
  inport : ∀ (r i : ℕ) (q : InPort), (net.m_input_unit r)[i]? = some q →
    r < net.num_routers ∧ net.linkConsumer q.m_in_link = some (.router r)
  inport_inj : ∀ (r i i' : ℕ) (q q' : InPort), (net.m_input_unit r)[i]? = some q →
    (net.m_input_unit r)[i']? = some q' → q.m_in_link = q'.m_in_link → i = i'
  inport_of_consumer : ∀ l r, net.linkConsumer l = some (.router r) →
    ∃ (i : ℕ) (q : InPort), (net.m_input_unit r)[i]? = some q ∧ q.m_in_link = l
  outport : ∀ (r o : ℕ) (q : OutPort), (net.m_output_unit r)[o]? = some q →
    r < net.num_routers ∧ net.creditConsumer q.m_out_link = some (.router r)
  outport_inj : ∀ (r o o' : ℕ) (q q' : OutPort), (net.m_output_unit r)[o]? = some q →
    (net.m_output_unit r)[o']? = some q' → q.m_out_link = q'.m_out_link → o = o'
  outport_of_consumer : ∀ l r, net.creditConsumer l = some (.router r) →
    ∃ (o : ℕ) (q : OutPort), (net.m_output_unit r)[o]? = some q ∧ q.m_out_link = l
  upstream : ∀ (r i : ℕ) (q : InPort), (net.m_input_unit r)[i]? = some q →
    q.m_direction ≠ .Local → ∃ u < net.num_routers, q.m_src_router = u
      ∧ ∃ (o : ℕ) (q' : OutPort), (net.m_output_unit u)[o]? = some q'
        ∧ q'.m_out_link = q.m_in_link ∧ q'.m_dest_router = r
        ∧ ∀ (o' : ℕ) (q'' : OutPort), (net.m_output_unit u)[o']? = some q'' →
          q''.m_dest_router = r → o' = o
  ni_in : ∀ n < net.num_nodes, net.linkConsumer (net.inNetLink n) = some (.ni n)
    ∧ ∃ r, net.creditConsumer (net.inNetLink n) = some (.router r)
  ni_out : ∀ n < net.num_nodes, net.creditConsumer (net.outNetLink n) = some (.ni n)
    ∧ net.linkConsumer (net.outNetLink n) = some (.router (net.m_router_id n))
  ni_of_consumer : ∀ l n, net.linkConsumer l = some (.ni n) →
    n < net.num_nodes ∧ net.inNetLink n = l
  ni_of_credit : ∀ l n, net.creditConsumer l = some (.ni n) →
    n < net.num_nodes ∧ net.outNetLink n = l


namespace Topology

variable {T : Topology} {p : Params} {shape : 0 < p.num_rows →
  p.num_rows * (T.m_number_of_switches / p.num_rows) = T.m_number_of_switches}

theorem linkConsumer_eq_some {l : ℕ} {e : Endpoint} :
    (T.network p shape).linkConsumer l = some e ↔
      ∃ ij, T.madeLinks[l]? = some ij ∧ (T.linkOf ij).link_consumer = e := by
  rw [GarnetNetwork.linkConsumer, getElem?_m_networklinks]
  simp

theorem creditConsumer_eq_some {l : ℕ} {e : Endpoint} :
    (T.network p shape).creditConsumer l = some e ↔
      ∃ ij, T.madeLinks[l]? = some ij ∧ (T.linkOf ij).credit_consumer = e := by
  rw [GarnetNetwork.creditConsumer, getElem?_m_networklinks]
  simp

/-- The reader of a made link is the router or the node it ends at, and the reader of its credits
the one it starts at. -/
theorem consumer_linkOf (h : (i, j) ∈ T.madeLinks) :
    ((∀ r, (T.linkOf (i, j)).link_consumer = .router r ↔ j = r + 2 * T.m_nodes)
      ∧ ∀ n, (T.linkOf (i, j)).link_consumer = .ni n ↔ n < T.m_nodes ∧ j = n + T.m_nodes)
    ∧ (∀ r, (T.linkOf (i, j)).credit_consumer = .router r ↔ i = r + 2 * T.m_nodes)
      ∧ ∀ n, (T.linkOf (i, j)).credit_consumer = .ni n ↔ n < T.m_nodes ∧ i = n := by
  rcases madeLink_kind h with ⟨hi, r0, -, hj⟩ | ⟨r0, -, hi, n0, hn0, hj⟩ |
    ⟨r0, -, hi, r1, -, hj⟩ <;> simp only at hi hj <;> subst hj
  · simp only [linkOf, hi, if_true, Endpoint.router.injEq, Endpoint.ni.injEq, reduceCtorEq,
      false_iff]
    refine ⟨⟨?_, ?_⟩, ?_, ?_⟩ <;> intro <;> omega
  · have hi' : ¬ i < T.m_nodes := by omega
    have hj' : n0 + T.m_nodes < 2 * T.m_nodes := by omega
    simp only [linkOf, hi', hj', if_false, if_true, Endpoint.router.injEq, Endpoint.ni.injEq,
      reduceCtorEq, false_iff]
    refine ⟨⟨?_, ?_⟩, ?_, ?_⟩ <;> intro <;> omega
  · have hi' : ¬ i < T.m_nodes := by omega
    have hj' : ¬ r1 + 2 * T.m_nodes < 2 * T.m_nodes := by omega
    simp only [linkOf, hi', hj', if_false, Endpoint.router.injEq, reduceCtorEq, false_iff]
    refine ⟨⟨?_, ?_⟩, ?_, ?_⟩ <;> intro <;> omega

@[simp] theorem inPortOf_m_in_link (ij : ℕ × ℕ) (l : ℕ) : (T.inPortOf ij l).m_in_link = l := by
  unfold inPortOf
  split <;> rfl

@[simp] theorem outPortOf_m_out_link (ij : ℕ × ℕ) (l : ℕ) :
    (T.outPortOf ij l).m_out_link = l := by
  unfold outPortOf
  split <;> rfl

theorem madeLink_router_lt (h : ij ∈ T.madeLinks) (r : ℕ)
    (hr : ij.1 = r + 2 * T.m_nodes ∨ ij.2 = r + 2 * T.m_nodes) : r < T.m_number_of_switches := by
  rcases madeLink_kind h with ⟨hi, r0, hr0, hj⟩ | ⟨r0, hr0, hi, n0, hn0, hj⟩ |
    ⟨r0, hr0, hi, r1, hr1, hj⟩ <;> omega

/-- An output port that leads to router `r` is the start of the made link to `r`. -/
theorem outPortOf_m_dest_router {i j l r : ℕ} :
    (T.outPortOf (i, j) l).m_dest_router = r ↔ j = r + 2 * T.m_nodes := by
  unfold outPortOf
  split
  · rename_i hj
    simp only at hj ⊢
    constructor <;> intro <;> omega
  · rename_i hj
    simp only at hj ⊢
    omega

variable (shape) in
theorem ext_link_ni (hl : l ∈ T.m_ext_link_vector) :
    (T.network p shape).m_router_id l.ext_node = l.int_node
      ∧ T.madeLinks[(T.network p shape).outNetLink l.ext_node]?
        = some (l.ext_node, l.int_node + 2 * T.m_nodes)
      ∧ T.madeLinks[(T.network p shape).inNetLink l.ext_node]?
        = some (l.int_node + 2 * T.m_nodes, l.ext_node + T.m_nodes) := by
  have hn := ext_node_lt hl
  obtain ⟨hin, hout, huniq, huniq'⟩ := ext_madeLinks hl
  obtain ⟨k, hk⟩ := getElem?_of_mem hin
  obtain ⟨k', hk'⟩ := getElem?_of_mem hout
  obtain ⟨ho, hr⟩ := T.createLinks_built.outNet l.ext_node hn _ k hk huniq nodup_madeLinks
  have hi := T.createLinks_built.inNet l.ext_node hn _ k' hk' huniq' nodup_madeLinks
  change (T.network p shape).outNetLink l.ext_node = k at ho
  change (T.network p shape).m_router_id l.ext_node = _ at hr
  change (T.network p shape).inNetLink l.ext_node = k' at hi
  rw [ho, hr, hi, Nat.add_sub_cancel]
  exact ⟨rfl, hk, hk'⟩

/-- **The network of a topology is well-formed.** -/
theorem network_wired (T : Topology) (p : Params) (shape) : Wired (T.network p shape) where
  inport r i q h := by
    obtain ⟨i, l, hl, rfl⟩ := getElem?_m_input_unit h
    have hmem := mem_of_getElem? hl
    rw [inPortOf_m_in_link]
    exact ⟨madeLink_router_lt hmem r (.inr rfl),
      linkConsumer_eq_some.mpr ⟨_, hl, ((consumer_linkOf hmem).1.1 r).mpr rfl⟩⟩
  inport_inj r i i' q q' h h' heq := by
    change (T.createLinks.m_input_unit r)[i]? = some q at h
    change (T.createLinks.m_input_unit r)[i']? = some q' at h'
    rw [T.createLinks_built.ins] at h h'
    exact ports_inj InPort.m_in_link (fun _ => inPortOf_m_in_link _ _) h h' heq
  inport_of_consumer l r h := by
    obtain ⟨⟨i, j⟩, hl, hc⟩ := linkConsumer_eq_some.mp h
    obtain rfl := ((consumer_linkOf (mem_of_getElem? hl)).1.1 r).mp hc
    obtain ⟨k, hk⟩ := exists_in_port shape hl
    exact ⟨k, _, hk, inPortOf_m_in_link _ _⟩
  outport r o q h := by
    obtain ⟨j, l, hl, rfl⟩ := getElem?_m_output_unit h
    have hmem := mem_of_getElem? hl
    rw [outPortOf_m_out_link]
    exact ⟨madeLink_router_lt hmem r (Or.inl rfl),
      creditConsumer_eq_some.mpr ⟨_, hl, ((consumer_linkOf hmem).2.1 r).mpr rfl⟩⟩
  outport_inj r o o' q q' h h' heq := by
    change (T.createLinks.m_output_unit r)[o]? = some q at h
    change (T.createLinks.m_output_unit r)[o']? = some q' at h'
    rw [T.createLinks_built.outs] at h h'
    exact ports_inj OutPort.m_out_link (fun _ => outPortOf_m_out_link _ _) h h' heq
  outport_of_consumer l r h := by
    obtain ⟨⟨i, j⟩, hl, hc⟩ := creditConsumer_eq_some.mp h
    obtain rfl := ((consumer_linkOf (mem_of_getElem? hl)).2.1 r).mp hc
    obtain ⟨k, hk⟩ := exists_out_port shape hl
    exact ⟨k, _, hk, outPortOf_m_out_link _ _⟩
  upstream r i q h hdir := by
    obtain ⟨i, l, hl, rfl⟩ := getElem?_m_input_unit h
    have hmem := mem_of_getElem? hl
    have hi : ¬ i < T.m_nodes := by
      intro hi
      simp [inPortOf, hi] at hdir
    obtain ⟨u, hu, hiu⟩ : ∃ u < T.m_number_of_switches, i = u + 2 * T.m_nodes := by
      rcases madeLink_kind hmem with ⟨hi', -⟩ | ⟨u, hu, hiu, -⟩ | ⟨u, hu, hiu, -⟩
      · exact absurd hi' hi
      · exact ⟨u, hu, hiu⟩
      · exact ⟨u, hu, hiu⟩
    subst hiu
    obtain ⟨o, ho⟩ := exists_out_port shape hl
    refine ⟨u, hu, by simp [inPortOf, hi], o, _, ho, by simp, ?_, ?_⟩
    · exact outPortOf_m_dest_router.mpr rfl
    · intro o' q'' ho' hdest
      obtain ⟨j', l', hl', rfl⟩ := getElem?_m_output_unit ho'
      rw [outPortOf_m_dest_router] at hdest
      subst hdest
      obtain ⟨hlt, -⟩ := List.getElem?_eq_some_iff.mp hl
      obtain rfl : l = l' := (List.getElem?_inj hlt nodup_madeLinks).mp (hl.trans hl'.symm)
      change (T.createLinks.m_output_unit u)[o']? = _ at ho'
      change (T.createLinks.m_output_unit u)[o]? = _ at ho
      rw [T.createLinks_built.outs] at ho ho'
      exact ports_inj OutPort.m_out_link (fun _ => outPortOf_m_out_link _ _) ho' ho rfl
  ni_in n hn := by
    obtain ⟨e, he, rfl⟩ := exists_ext_link hn
    obtain ⟨-, -, hl⟩ := ext_link_ni shape he
    have hmem := mem_of_getElem? hl
    exact ⟨linkConsumer_eq_some.mpr ⟨_, hl, ((consumer_linkOf hmem).1.2 _).mpr ⟨hn, rfl⟩⟩,
      e.int_node, creditConsumer_eq_some.mpr ⟨_, hl, ((consumer_linkOf hmem).2.1 _).mpr rfl⟩⟩
  ni_out n hn := by
    obtain ⟨e, he, rfl⟩ := exists_ext_link hn
    obtain ⟨hr, hl, -⟩ := ext_link_ni shape he
    have hmem := mem_of_getElem? hl
    rw [hr]
    exact ⟨creditConsumer_eq_some.mpr ⟨_, hl, ((consumer_linkOf hmem).2.2 _).mpr ⟨hn, rfl⟩⟩,
      linkConsumer_eq_some.mpr ⟨_, hl, ((consumer_linkOf hmem).1.1 _).mpr rfl⟩⟩
  ni_of_consumer l n h := by
    obtain ⟨⟨i, j⟩, hl, hc⟩ := linkConsumer_eq_some.mp h
    have hmem := mem_of_getElem? hl
    obtain ⟨hn, rfl⟩ := ((consumer_linkOf hmem).1.2 n).mp hc
    obtain ⟨e, he, rfl⟩ := exists_ext_link hn
    obtain ⟨-, -, -, huniq⟩ := ext_madeLinks he
    exact ⟨hn, T.createLinks_built.inNet e.ext_node hn i l hl
      (fun r' hr' => (huniq r' hr').trans (huniq i hmem).symm) nodup_madeLinks⟩
  ni_of_credit l n h := by
    obtain ⟨⟨i, j⟩, hl, hc⟩ := creditConsumer_eq_some.mp h
    have hmem := mem_of_getElem? hl
    obtain ⟨hn, rfl⟩ := ((consumer_linkOf hmem).2.2 n).mp hc
    obtain ⟨e, he, rfl⟩ := exists_ext_link hn
    obtain ⟨-, -, huniq, -⟩ := ext_madeLinks he
    exact ⟨hn, (T.createLinks_built.outNet e.ext_node hn j l hl
      (fun r' hr' => (huniq r' hr').trans (huniq j hmem).symm) nodup_madeLinks).1⟩

variable {r r' o o' : ℕ} {q q' : OutPort} {e : LinkEntry}

theorem outPortOf_router (he : T.m_link_map (i, r + 2 * T.m_nodes) = some e) (l : ℕ) :
    T.outPortOf (i, r + 2 * T.m_nodes) l
      = ⟨e.src_outport_dirn, l, r, T.tableOf (i, r + 2 * T.m_nodes), e.m_weight⟩ := by
  rw [outPortOf, if_neg (by simp only; omega), entry, he, Option.getD_some, Nat.add_sub_cancel]

/-- An output port leads to a node, or over a link of the map to a router. -/
theorem outport_cases (h : ((T.network p shape).m_output_unit r)[o]? = some q) :
    (q.m_direction = .Local ∧ ∃ n < T.m_nodes,
        (T.network p shape).linkConsumer q.m_out_link = some (.ni n))
      ∨ ∃ r' e, T.m_link_map (r + 2 * T.m_nodes, r' + 2 * T.m_nodes) = some e
        ∧ q.m_direction = e.src_outport_dirn ∧ q.m_weight_table = e.m_weight
        ∧ (T.network p shape).linkConsumer q.m_out_link = some (.router r')
        ∧ T.madeLinks[q.m_out_link]? = some (r + 2 * T.m_nodes, r' + 2 * T.m_nodes) := by
  obtain ⟨j, l, hl, rfl⟩ := getElem?_m_output_unit h
  have hmem := mem_of_getElem? hl
  have hto := (consumer_linkOf hmem).1
  simp only [linkConsumer_eq_some]
  rcases madeLink_kind hmem with ⟨hlt, -⟩ | ⟨-, -, -, n, hn, rfl⟩ | ⟨-, -, -, r', -, rfl⟩
  · simp only at hlt
    omega
  · rw [outPortOf, if_pos (by simp only; omega)]
    exact .inl ⟨rfl, n, hn, _, hl, (hto.2 n).mpr ⟨hn, rfl⟩⟩
  · obtain ⟨e, he, -⟩ := exists_entry_of_madeLink hmem
    rw [outPortOf_router he]
    exact .inr ⟨r', e, he, rfl, rfl, ⟨_, hl, (hto.1 r').mpr rfl⟩, hl⟩

theorem outport_unique (h : ((T.network p shape).m_output_unit r)[o]? = some q)
    (h' : ((T.network p shape).m_output_unit r)[o']? = some q')
    (heq : T.madeLinks[q'.m_out_link]? = T.madeLinks[q.m_out_link]?) : o' = o := by
  obtain ⟨j, l, hl, rfl⟩ := getElem?_m_output_unit h'
  rw [outPortOf_m_out_link] at heq
  refine (network_wired T p shape).outport_inj r o' o _ q h' h ?_
  rw [outPortOf_m_out_link]
  exact (List.getElem?_inj (List.getElem?_eq_some_iff.mp hl).1 nodup_madeLinks).mp heq

variable (shape) in
/-- The port to another router, if the map has a link that can be made. -/
theorem exists_outport_to
    (he : T.m_link_map (r + 2 * T.m_nodes, r' + 2 * T.m_nodes) = some e)
    (hw : 0 < e.m_weight ∧ e.m_weight ≠ INFINITE_LATENCY) :
    ∃ (o : ℕ) (q : OutPort), ((T.network p shape).m_output_unit r)[o]? = some q
      ∧ q.m_direction = e.src_outport_dirn ∧ q.m_weight_table = e.m_weight
      ∧ (T.network p shape).linkConsumer q.m_out_link = some (.router r') := by
  obtain ⟨l, hl⟩ := getElem?_of_mem (mem_madeLinks_of_entry he hw)
  obtain ⟨o, ho⟩ := exists_out_port shape hl
  rw [outPortOf_router he] at ho
  exact ⟨o, _, ho, rfl, rfl, linkConsumer_eq_some.mpr
    ⟨_, hl, ((consumer_linkOf (mem_of_getElem? hl)).1.1 r').mpr rfl⟩⟩

end Topology

end Bindu.Garnet
