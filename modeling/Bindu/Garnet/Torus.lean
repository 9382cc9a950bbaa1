/-
The torus `Torus_XY`: the mesh with a wrap-around link at the end of every row and column.

Source: `configs/topologies/Torus_XY.py`.
-/
import Bindu.Garnet.Mesh

namespace Bindu.Garnet

open List

namespace MeshSize

variable (m : MeshSize)

/-- East output to West input links. -/
def torus_east_links (link_latency : ℕ) : List BasicIntLink :=
  (range m.num_rows).flatMap (fun row =>
    (range m.num_columns).flatMap (fun col =>
      (if col + 1 < m.num_columns then
        [⟨col + row * m.num_columns, (col + 1) + row * m.num_columns, .East, .West,
          link_latency, 1⟩]
      else []) ++
      (if col + 1 = m.num_columns then
        [⟨col + row * m.num_columns, row * m.num_columns, .East, .West, link_latency, 1⟩]
      else [])))

/-- West output to East input links. -/
def torus_west_links (link_latency : ℕ) : List BasicIntLink :=
  (range m.num_rows).flatMap (fun row =>
    (range m.num_columns).flatMap (fun col =>
      (if col + 1 < m.num_columns then
        [⟨(col + 1) + row * m.num_columns, col + row * m.num_columns, .West, .East,
          link_latency, 1⟩]
      else []) ++
      (if col + 1 = m.num_columns then
        [⟨row * m.num_columns, col + row * m.num_columns, .West, .East, link_latency, 1⟩]
      else [])))

/-- North output to South input links. -/
def torus_north_links (link_latency : ℕ) : List BasicIntLink :=
  (range m.num_columns).flatMap (fun col =>
    (range m.num_rows).flatMap (fun row =>
      (if row + 1 < m.num_rows then
        [⟨col + row * m.num_columns, col + (row + 1) * m.num_columns, .North, .South,
          link_latency, 2⟩]
      else []) ++
      (if row + 1 = m.num_rows then
        [⟨col + row * m.num_columns, col, .North, .South, link_latency, 2⟩]
      else [])))

/-- South output to North input links. -/
def torus_south_links (link_latency : ℕ) : List BasicIntLink :=
  (range m.num_columns).flatMap (fun col =>
    (range m.num_rows).flatMap (fun row =>
      (if row + 1 < m.num_rows then
        [⟨col + (row + 1) * m.num_columns, col + row * m.num_columns, .South, .North,
          link_latency, 2⟩]
      else []) ++
      (if row + 1 = m.num_rows then
        [⟨col, col + row * m.num_columns, .South, .North, link_latency, 2⟩]
      else [])))

def torus_int_links (link_latency : ℕ) : List BasicIntLink :=
  m.torus_east_links link_latency ++ m.torus_west_links link_latency
    ++ m.torus_north_links link_latency ++ m.torus_south_links link_latency

/-! ## Neighbours on the torus -/

/-- The number after `k` on a ring of `n`. -/
def ringSucc (n k : ℕ) : ℕ := if k + 1 < n then k + 1 else 0

theorem ringSucc_lt {n k : ℕ} (h : k < n) : ringSucc n k < n := by
  unfold ringSucc
  split_ifs <;> omega

/-- Column `col'` and row `row'` are one step in a direction from column `col` and row `row`,
with wrap-around. -/
def TorusAdjacent (col row col' row' : ℕ) : PortDirection → Prop
  | .East => col' = ringSucc m.num_columns col ∧ row' = row
  | .West => col = ringSucc m.num_columns col' ∧ row' = row
  | .North => col' = col ∧ row' = ringSucc m.num_rows row
  | .South => col' = col ∧ row = ringSucc m.num_rows row'
  | _ => False

variable {m}

/-- **The internal links of the torus** are the pairs of neighbours. -/
theorem mem_torus_int_links {l : BasicIntLink} {lat : ℕ} : l ∈ m.torus_int_links lat ↔
    ∃ col row col' row' d, col < m.num_columns ∧ row < m.num_rows ∧ col' < m.num_columns
      ∧ row' < m.num_rows ∧ m.TorusAdjacent col row col' row' d
      ∧ l = ⟨col + row * m.num_columns, col' + row' * m.num_columns, d, opposite d, lat,
        weightOf d⟩ := by
  have hif : ∀ (c : Prop) [Decidable c] (x : BasicIntLink),
      l ∈ (if c then [x] else []) ↔ c ∧ l = x := by
    intro c _ x
    split_ifs with h <;> simp [h]
  simp only [torus_int_links, torus_east_links, torus_west_links, torus_north_links,
    torus_south_links, mem_append, mem_flatMap, mem_range, hif]
  constructor
  · rintro (((⟨row, hr, col, hc, h⟩ | ⟨row, hr, col, hc, h⟩) | ⟨col, hc, row, hr, h⟩) |
      ⟨col, hc, row, hr, h⟩)
    · refine ⟨col, row, ringSucc m.num_columns col, row, .East, hc, hr, ringSucc_lt hc, hr,
        ⟨rfl, rfl⟩, ?_⟩
      unfold ringSucc
      rcases h with ⟨h, rfl⟩ | ⟨h, rfl⟩
      · rw [if_pos h]; rfl
      · rw [if_neg (by omega), Nat.zero_add]; rfl
    · refine ⟨ringSucc m.num_columns col, row, col, row, .West, ringSucc_lt hc, hr, hc, hr,
        ⟨rfl, rfl⟩, ?_⟩
      unfold ringSucc
      rcases h with ⟨h, rfl⟩ | ⟨h, rfl⟩
      · rw [if_pos h]; rfl
      · rw [if_neg (by omega), Nat.zero_add]; rfl
    · refine ⟨col, row, col, ringSucc m.num_rows row, .North, hc, hr, hc, ringSucc_lt hr,
        ⟨rfl, rfl⟩, ?_⟩
      unfold ringSucc
      rcases h with ⟨h, rfl⟩ | ⟨h, rfl⟩
      · rw [if_pos h]; rfl
      · rw [if_neg (by omega), Nat.zero_mul]; rfl
    · refine ⟨col, ringSucc m.num_rows row, col, row, .South, hc, ringSucc_lt hr, hc, hr,
        ⟨rfl, rfl⟩, ?_⟩
      unfold ringSucc
      rcases h with ⟨h, rfl⟩ | ⟨h, rfl⟩
      · rw [if_pos h]; rfl
      · rw [if_neg (by omega), Nat.zero_mul]; rfl
  · rintro ⟨col, row, col', row', d, hc, hr, hc', hr', h, rfl⟩
    cases d <;> simp only [TorusAdjacent] at h <;> obtain ⟨h1, h2⟩ := h <;> subst h1 <;> subst h2
    · refine .inl (.inl (.inl ⟨_, hr, _, hc, ?_⟩))
      unfold ringSucc
      split_ifs with h
      · exact .inl ⟨h, rfl⟩
      · exact .inr ⟨by omega, by rw [Nat.zero_add]; rfl⟩
    · refine .inl (.inl (.inr ⟨_, hr, _, hc', ?_⟩))
      unfold ringSucc
      split_ifs with h
      · exact .inl ⟨h, rfl⟩
      · exact .inr ⟨by omega, by rw [Nat.zero_add]; rfl⟩
    · refine .inl (.inr ⟨_, hc, _, hr, ?_⟩)
      unfold ringSucc
      split_ifs with h
      · exact .inl ⟨h, rfl⟩
      · exact .inr ⟨by omega, by rw [Nat.zero_mul]; rfl⟩
    · refine .inr ⟨_, hc, _, hr', ?_⟩
      unfold ringSucc
      split_ifs with h
      · exact .inl ⟨h, rfl⟩
      · exact .inr ⟨by omega, by rw [Nat.zero_mul]; rfl⟩

end MeshSize

/-- `Torus_XY.makeTopology`. The controllers are attached as in `Mesh_XY`. -/
def Torus_XY (m : MeshSize) (link_latency : ℕ) : Topology :=
  { Mesh_XY m link_latency with
    m_int_link_vector := m.torus_int_links link_latency
    int_routers := by
      intro l hl
      obtain ⟨col, row, col', row', d, hc, hr, hc', hr', -, rfl⟩ :=
        MeshSize.mem_torus_int_links.mp hl
      exact ⟨MeshSize.lt_num_routers hc hr, MeshSize.lt_num_routers hc' hr'⟩ }

/-! ## The input ports of a torus router -/

/-- An internal link whose two ends determine it is an input port of its destination. -/
theorem Topology.exists_inport_of_int_link {T : Topology} {p : Params} (shape : 0 < p.num_rows →
      p.num_rows * (T.m_number_of_switches / p.num_rows) = T.m_number_of_switches)
    {l : BasicIntLink} (hl : l ∈ T.m_int_link_vector)
    (hw : 0 < l.m_weight ∧ l.m_weight ≠ INFINITE_LATENCY)
    (huniq : ∀ l' ∈ T.m_int_link_vector, l'.src_node = l.src_node → l'.dst_node = l.dst_node →
      l' = l) :
    ∃ i < (T.network p shape).num_inports l.dst_node,
      (T.network p shape).getInportDirection l.dst_node i = l.dst_inport := by
  obtain ⟨e, he, hmem⟩ := T.exists_m_link_map_of_mem
    (mem_addLinkCalls.mpr (.inr (.inr ⟨l, hl, rfl, rfl⟩)))
  obtain rfl : e = ⟨l.m_latency, l.m_weight, l.src_outport, l.dst_inport⟩ := by
    rcases mem_addLinkCalls.mp hmem with ⟨l', hl', heq, -⟩ | ⟨l', hl', heq, -⟩ |
      ⟨l', hl', heq, rfl⟩ <;> simp only [Prod.mk.injEq] at heq
    · have := ext_node_lt hl'
      omega
    · have := ext_node_lt hl'
      omega
    · rw [huniq l' hl' (by omega) (by omega)]
  obtain ⟨k, hk⟩ := List.getElem?_of_mem (mem_madeLinks_of_entry he hw)
  obtain ⟨i, hi⟩ := exists_in_port shape hk
  refine ⟨i, (List.getElem?_eq_some_iff.mp hi).1, ?_⟩
  rw [GarnetNetwork.getInportDirection, hi]
  have hnot : ¬ l.src_node + 2 * T.m_nodes < T.m_nodes := by omega
  simp only [inPortOf, hnot, if_false, entry, he, Option.getD_some]

end Bindu.Garnet
