/-
The sweep of a bubble over a square mesh.

`move_next_router` leads a bubble along the snake order of the mesh: even rows from left to
right, odd rows from right to left. The position in that order goes up or down by one with
every move, and `sense_inc` is turned at the two ends, which for an even number of rows are
router 0 and the first router of the last row. So the bubble is a token that walks back and
forth on a path.
-/
import Bindu.Lib.Bounce
import Bindu.Garnet.Bubble
import Bindu.Garnet.Mesh

open Bindu.Lib Nat

namespace Bindu.Garnet

open MeshSize

/-! ## The next router in rows and columns -/

/-- Within its row, a bubble goes right in even rows with rising sense and in odd rows with
falling sense. -/
def headingRight (row : ℕ) (up : Bool) : Bool := decide (row % 2 = 0) == up

/-- **The number `move_next_router` computes**, in rows of `w` routers: along the row to its
end, and there to the next or to the previous row. -/
theorem next_router_id_of {w col : ℕ} (hcol : col < w) (row : ℕ) (up : Bool) :
    next_router_id w ((col + row * w : ℕ) : ℤ) up = if headingRight row up then
          if col + 1 = w then (if up then (col + row * w : ℤ) + w else (col + row * w : ℤ) - w)
          else (col + row * w : ℤ) + 1
        else
          if col = 0 then (if up then (col + row * w : ℤ) + w else (col + row * w : ℤ) - w)
          else (col + row * w : ℤ) - 1 := by
  have hdiv : (col + row * w) / w = row := by
    rw [add_mul_div_right _ _ (by omega), div_eq_of_lt hcol, zero_add]
  have hmod : (col + row * w) % w = col := by
    rw [add_mul_mod_self_right, mod_eq_of_lt hcol]
  have hpar : (((col + row * w : ℕ) : ℤ).tdiv w).tmod 2 = ((row % 2 : ℕ) : ℤ) := by
    rw [← Int.ofNat_tdiv, hdiv]
    exact (Int.ofNat_tmod row 2).symm
  have hcmod : ((col + row * w : ℕ) : ℤ).tmod w = (col : ℤ) := by
    rw [← Int.ofNat_tmod, hmod]
  have hend : ((col : ℤ) = w - 1) ↔ col + 1 = w := by omega
  have hzero : ((col : ℤ) = 0) ↔ col = 0 := by omega
  rw [next_router_id, hpar, hcmod]
  simp only [hend, hzero, headingRight]
  rcases mod_two_eq_zero_or_one row with h | h <;> cases up <;> simp [h]

namespace MeshSize

/-- The position of a router in the snake order. -/
def snakeIndex (m : MeshSize) (r : ℕ) : ℕ :=
  if m.y r % 2 = 0 then m.y r * m.num_columns + m.x r
  else m.y r * m.num_columns + (m.num_columns - 1 - m.x r)

/-- A square mesh with an even number of rows. -/
structure EvenSquare (m : MeshSize) : Prop where
  square : m.num_columns = m.num_rows
  even : m.num_rows % 2 = 0

variable {m : MeshSize}

theorem snakeIndex_of {col : ℕ} (hcol : col < m.num_columns) (row : ℕ) :
    m.snakeIndex (col + row * m.num_columns) = if row % 2 = 0 then row * m.num_columns + col
        else row * m.num_columns + (m.num_columns - 1 - col) := by
  rw [snakeIndex, x_of hcol, y_of hcol]

/-- **A move along the snake.** Every router but the last one of the snake order has a neighbour
one position further, every router but the first has one a position before, and
`next_router_id` finds it. -/
theorem exists_next {col row : ℕ} (up : Bool) (hcol : col < m.num_columns) (hrow : row < m.num_rows)
    (hinside : (if headingRight row up then col + 1 < m.num_columns else 0 < col)
      ∨ if up then row + 1 < m.num_rows else 0 < row) :
    ∃ col' row' d, col' < m.num_columns ∧ row' < m.num_rows ∧ Adjacent col row col' row' d
      ∧ next_router_id m.num_columns ((col + row * m.num_columns : ℕ) : ℤ) up
        = ((col' + row' * m.num_columns : ℕ) : ℤ)
      ∧ if up then m.snakeIndex (col' + row' * m.num_columns)
          = m.snakeIndex (col + row * m.num_columns) + 1
        else m.snakeIndex (col + row * m.num_columns)
          = m.snakeIndex (col' + row' * m.num_columns) + 1 := by
  have hform := next_router_id_of hcol row up
  rw [snakeIndex_of hcol]
  by_cases hend : if headingRight row up then col + 1 = m.num_columns else col = 0
  · have hmove := hinside.resolve_left (by split_ifs at hend ⊢ <;> omega)
    have hnext : next_router_id m.num_columns ((col + row * m.num_columns : ℕ) : ℤ) up
        = if up then (col + row * m.num_columns : ℤ) + m.num_columns
          else (col + row * m.num_columns : ℤ) - m.num_columns := by
      rw [hform]
      split_ifs at hend ⊢ <;> rfl
    rw [hnext]
    cases up with
    | true =>
      refine ⟨col, row + 1, .North, hcol, by simpa using hmove, ⟨rfl, rfl⟩, ?_, ?_⟩
      · rw [if_pos rfl]
        push_cast
        ring
      · simp only [headingRight, beq_true, decide_eq_true_eq] at hend
        rw [snakeIndex_of hcol, add_mul, if_pos rfl]
        split_ifs at hend ⊢ <;> omega
    | false =>
      obtain ⟨row, rfl⟩ : ∃ k, row = k + 1 := ⟨row - 1, by simp at hmove; omega⟩
      refine ⟨col, row, .South, hcol, by omega, ⟨rfl, rfl⟩, ?_, ?_⟩
      · rw [if_neg Bool.false_ne_true]
        push_cast
        ring
      · simp only [headingRight, beq_false, Bool.not_eq_true', decide_eq_false_iff_not] at hend
        rw [snakeIndex_of hcol, add_mul, if_neg Bool.false_ne_true]
        split_ifs at hend ⊢ <;> omega
  · by_cases hright : headingRight row up
    · rw [if_pos hright] at hend hform
      refine ⟨col + 1, row, .East, by omega, hrow, ⟨rfl, rfl⟩, ?_, ?_⟩
      · rw [hform, if_neg hend]
        push_cast
        ring
      · rw [snakeIndex_of (by omega)]
        cases up <;> simp [headingRight] at hright <;> simp [hright] <;> omega
    · rw [if_neg hright] at hend hform
      refine ⟨col - 1, row, .West, by omega, hrow, ⟨by omega, rfl⟩, ?_, ?_⟩
      · rw [hform, if_neg hend]
        omega
      · rw [snakeIndex_of (by omega)]
        cases up <;> simp [headingRight] at hright <;> simp [hright] <;> omega

/-! ## The ends of the snake -/

theorem snakeIndex_lt {r : ℕ} (hr : r < m.num_routers) : m.snakeIndex r < m.num_routers := by
  have hx := x_lt (m := m) r
  have hle : (m.y r + 1) * m.num_columns ≤ m.num_routers := mul_le_mul_right _ (y_lt hr)
  rw [add_mul] at hle
  rw [snakeIndex]
  split_ifs <;> omega

theorem snakeIndex_inj {r r' : ℕ} (h : m.snakeIndex r = m.snakeIndex r') : r = r' := by
  have hx := x_lt (m := m) r
  have hx' := x_lt (m := m) r'
  -- the row is the quotient of the position
  have hdiv : ∀ k, m.snakeIndex k / m.num_columns = m.y k := by
    intro k
    have hk := x_lt (m := m) k
    rw [snakeIndex]
    split_ifs <;> rw [mul_comm, mul_add_div m.columns_pos, div_eq_of_lt (by omega), add_zero]
  have hy : m.y r = m.y r' := by rw [← hdiv r, ← hdiv r', h]
  refine eq_of_x_y ?_ hy
  rw [snakeIndex, snakeIndex, hy] at h
  split_ifs at h <;> omega

theorem EvenSquare.two_le (hm : m.EvenSquare) : 2 ≤ m.num_rows := by
  have := m.rows_pos
  have := hm.even
  omega

/-- Where `turn_sense` turns: at the router of position 0 and at that of the last position. -/
theorem ends (hsq : m.num_columns = m.num_rows) {col row : ℕ} (hcol : col < m.num_columns)
    (hrow : row < m.num_rows) :
    (((col + row * m.num_columns : ℕ) : ℤ) = 0 ↔ col = 0 ∧ row = 0)
      ∧ (((col + row * m.num_columns : ℕ) : ℤ)
          = m.num_columns * m.num_columns - m.num_columns ↔ col = 0 ∧ row + 1 = m.num_rows) := by
  have hlast : ∀ k, k = (m.num_rows - 1) * m.num_columns ↔
      (k : ℤ) = m.num_columns * m.num_columns - m.num_columns := by
    intro k
    obtain ⟨R, hR⟩ : ∃ R, m.num_rows = R + 1 := ⟨m.num_rows - 1, by have := m.rows_pos; omega⟩
    rw [hsq, hR, Nat.add_sub_cancel, show ((R + 1 : ℕ) : ℤ) * (R + 1 : ℕ) - (R + 1 : ℕ)
      = ((R * (R + 1) : ℕ) : ℤ) by push_cast; ring]
    exact Nat.cast_inj.symm
  have hcoords : ∀ row0, col + row * m.num_columns = row0 * m.num_columns ↔
      col = 0 ∧ row = row0 := by
    intro row0
    constructor
    · intro h
      have hx : m.x (col + row * m.num_columns) = col := x_of hcol
      have hy : m.y (col + row * m.num_columns) = row := y_of hcol
      rw [h, x, Nat.mul_mod_left] at hx
      rw [h, y, Nat.mul_div_cancel _ m.columns_pos] at hy
      exact ⟨hx.symm, hy.symm⟩
    · rintro ⟨rfl, rfl⟩
      exact Nat.zero_add _
  constructor
  · have := hcoords 0
    rw [zero_mul] at this
    rw [← this]
    exact cast_eq_zero
  · rw [← hlast, hcoords]
    omega

end MeshSize

/-! ## The sweep -/

section Sweep

variable {m : MeshSize} {lat : ℕ} {p : Params} {shape : 0 < p.num_rows →
  p.num_rows * ((Mesh_XY m lat).m_number_of_switches / p.num_rows)
    = (Mesh_XY m lat).m_number_of_switches}

theorem move_next_router_of {net : GarnetNetwork} {r r' : ℕ} {sense up : Bool}
    (hup : turn_sense net.m_num_rows r sense = up)
    (hnext : next_router_id net.m_num_rows r up = (r' : ℤ)) (hr' : r' < net.num_routers) :
    move_next_router net r sense = .ok (r', up) := by
  have h1 : (0 : ℤ) ≤ (r' : ℤ) := Int.natCast_nonneg r'
  have h2 : (r' : ℤ) < net.num_routers := by exact_mod_cast hr'
  simp only [move_next_router, hup, hnext, h1, h2, decide_true, assert_true, Int.toNat_natCast]
  rfl

section Square

variable (shape) (hsq : m.num_columns = m.num_rows) (htwo : 2 ≤ m.num_rows) {r : ℕ}
  (hr : r < m.num_routers) {sense : Bool}

include hsq hr

include htwo in
theorem turn_sense_up (hup : turn_sense m.num_columns r sense = true) :
    ¬ (m.x r = 0 ∧ m.y r + 1 = m.num_rows) ∧ (m.x r = 0 ∧ m.y r = 0 ∨ sense = true) := by
  obtain ⟨hfirst, hlast⟩ := ends hsq (x_lt r) (y_lt hr)
  rw [x_add_y] at hfirst hlast
  simp only [turn_sense, hfirst, hlast] at hup
  split_ifs at hup with h1 h2
  · exact ⟨by omega, .inl h1⟩
  · exact ⟨h2, .inr hup⟩

theorem turn_sense_down (hup : turn_sense m.num_columns r sense = false) :
    ¬ (m.x r = 0 ∧ m.y r = 0) ∧ (m.x r = 0 ∧ m.y r + 1 = m.num_rows ∨ sense = false) := by
  obtain ⟨hfirst, hlast⟩ := ends hsq (x_lt r) (y_lt hr)
  rw [x_add_y] at hfirst hlast
  simp only [turn_sense, hfirst, hlast] at hup
  split_ifs at hup with h1 h2
  · exact ⟨h1, .inl h2⟩
  · exact ⟨h1, .inr hup⟩

variable (hrows : p.num_rows = m.num_rows)

include hrows

theorem move_to {col' row' : ℕ} {up : Bool} {d : PortDirection}
    (hup : turn_sense m.num_columns r sense = up) (hcol' : col' < m.num_columns)
    (hrow' : row' < m.num_rows) (hadj : Adjacent (m.x r) (m.y r) col' row' d)
    (hnext : next_router_id m.num_columns ((m.x r + m.y r * m.num_columns : ℕ) : ℤ) up
      = ((col' + row' * m.num_columns : ℕ) : ℤ)) :
    move_next_router ((Mesh_XY m lat).network p shape) r sense
        = .ok (col' + row' * m.num_columns, up)
      ∧ m.MeshLink r (col' + row' * m.num_columns) d := by
  have hrow : ((Mesh_XY m lat).network p shape).m_num_rows = m.num_columns := by
    rw [(mesh_num_cols shape hrows).1, hsq]
  have hlink := (meshLink_of (x_lt r) (y_lt hr) hcol' hrow').mpr hadj
  rw [x_add_y] at hnext hlink
  exact ⟨move_next_router_of (by rw [hrow]; exact hup) (by rw [hrow]; exact hnext) hlink.2.1, hlink⟩

include htwo in
/-- **A move up the snake**, to the router that follows in its order. -/
theorem move_up (hup : turn_sense m.num_columns r sense = true)
    (hbefore : m.num_rows % 2 = 0 ∨ m.y r + 1 < m.num_rows) :
    ∃ r' d, move_next_router ((Mesh_XY m lat).network p shape) r sense = .ok (r', true)
      ∧ m.MeshLink r r' d ∧ m.snakeIndex r' = m.snakeIndex r + 1 := by
  have hnot := (turn_sense_up hsq htwo hr hup).1
  have hx := x_lt (m := m) r
  have hy := y_lt hr
  obtain ⟨col', row', d, hcol', hrow', hadj, hnext, hidx⟩ := exists_next true hx hy (by
    simp only [headingRight, if_true, beq_true, decide_eq_true_eq]
    split_ifs <;> omega)
  obtain ⟨hmove, hlink⟩ := move_to shape hsq hr hrows hup hcol' hrow' hadj hnext
  rw [x_add_y] at hidx
  exact ⟨_, d, hmove, hlink, hidx⟩

/-- **A move down the snake.** -/
theorem move_down (hup : turn_sense m.num_columns r sense = false) :
    ∃ r' d, move_next_router ((Mesh_XY m lat).network p shape) r sense = .ok (r', false)
      ∧ m.MeshLink r r' d ∧ m.snakeIndex r = m.snakeIndex r' + 1 := by
  have hnot := (turn_sense_down hsq hr hup).1
  have hx := x_lt (m := m) r
  obtain ⟨col', row', d, hcol', hrow', hadj, hnext, hidx⟩ := exists_next false hx (y_lt hr) (by
    simp only [headingRight, Bool.false_eq_true, if_false, beq_false, Bool.not_eq_true',
      decide_eq_false_iff_not]
    split_ifs <;> omega)
  obtain ⟨hmove, hlink⟩ := move_to shape hsq hr hrows hup hcol' hrow' hadj hnext
  rw [x_add_y] at hidx
  exact ⟨_, d, hmove, hlink, hidx⟩

end Square

/-- **One move.** It leads to a neighbour, and the bubble's phase in the cycle of the sweep
advances by one. -/
theorem move_next_router_step (hm : m.EvenSquare) (hrows : p.num_rows = m.num_rows) {r : ℕ}
    (hr : r < m.num_routers) (sense : Bool) :
    ∃ r' up, move_next_router ((Mesh_XY m lat).network p shape) r sense = .ok (r', up)
      ∧ (∃ d, m.MeshLink r r' d)
      ∧ bouncePhase m.num_routers (m.snakeIndex r') up
        = (bouncePhase m.num_routers (m.snakeIndex r) sense + 1) % (2 * (m.num_routers - 1)) := by
  -- the sense after the turn decides between the two moves
  cases hup : turn_sense m.num_columns r sense with
  | true =>
    obtain ⟨r', d, hmove, hlink, hidx⟩ :=
      move_up shape hm.square hm.two_le hr hrows hup (.inl hm.even)
    refine ⟨r', true, hmove, ⟨d, hlink⟩, ?_⟩
    have hlt := snakeIndex_lt hlink.2.1
    rw [hidx] at hlt ⊢
    refine bouncePhase_up hlt sense ((turn_sense_up hm.square hm.two_le hr hup).2.imp_left ?_)
    rintro ⟨hx0, hy0⟩
    simp [snakeIndex, hx0, hy0]
  | false =>
    obtain ⟨r', d, hmove, hlink, hidx⟩ := move_down shape hm.square hr hrows hup
    refine ⟨r', false, hmove, ⟨d, hlink⟩, ?_⟩
    have hlt := snakeIndex_lt hr
    rw [hidx] at hlt ⊢
    refine bouncePhase_down hlt sense ((turn_sense_down hm.square hr hup).2.imp_left ?_)
    rintro ⟨hx0, hy0⟩
    have hodd : ¬ m.y r % 2 = 0 := by
      have := hm.even
      omega
    have hx := x_lt (m := m) r
    rw [← hidx, snakeIndex, if_neg hodd, hx0, num_routers, ← hy0, add_mul]
    omega

variable (net : GarnetNetwork)

/-- The router and the sense after `k` moves, each from the router the one before led to. -/
def sweep (st : ℕ × Bool) : ℕ → Except Fault (ℕ × Bool)
  | 0 => pure st
  | k + 1 => do
      let st ← sweep st k
      move_next_router net st.1 st.2

/-- **The bubble sweeps the whole mesh.** On a square mesh with an even number of rows, from
every router and with either sense: every move succeeds and leads to a neighbour, and any
`2 * (R * R - 1)` consecutive moves lead to every router. -/
theorem sweep_visits_all (m : MeshSize) (hm : m.EvenSquare) (lat : ℕ) (p : Params) (shape)
    (hrows : p.num_rows = m.num_rows) (start : ℕ) (hstart : start < m.num_routers)
    (sense : Bool) :
    (∀ k, ∃ r up r' up', sweep ((Mesh_XY m lat).network p shape) (start, sense) k = .ok (r, up)
      ∧ sweep ((Mesh_XY m lat).network p shape) (start, sense) (k + 1) = .ok (r', up')
      ∧ r' < m.num_routers ∧ ∃ d, m.MeshLink r r' d)
    ∧ ∀ k, ∀ t < m.num_routers, ∃ j, k < j ∧ j ≤ k + 2 * (m.num_routers - 1)
      ∧ ∃ up, sweep ((Mesh_XY m lat).network p shape) (start, sense) j = .ok (t, up) := by
  have htwo : 2 ≤ m.num_routers := by
    have h := hm.two_le
    rw [num_routers, hm.square]
    exact h.trans (Nat.le_mul_of_pos_left _ m.rows_pos)
  -- the run as a sequence of routers and senses
  have hrun : ∀ k, ∃ r up, sweep ((Mesh_XY m lat).network p shape) (start, sense) k = .ok (r, up)
      ∧ r < m.num_routers := by
    intro k
    induction k with
    | zero => exact ⟨start, sense, rfl, hstart⟩
    | succ k ih =>
      obtain ⟨r, up, heq, hr⟩ := ih
      obtain ⟨r', up', hmove, ⟨d, hlink⟩, -⟩ := move_next_router_step hm hrows hr up
      exact ⟨r', up', by rw [sweep, heq]; exact hmove, hlink.2.1⟩
  choose r up heq hr using hrun
  have hnext : ∀ k, (∃ d, m.MeshLink (r k) (r (k + 1)) d)
      ∧ bouncePhase m.num_routers (m.snakeIndex (r (k + 1))) (up (k + 1))
        = (bouncePhase m.num_routers (m.snakeIndex (r k)) (up k) + 1)
          % (2 * (m.num_routers - 1)) := by
    intro k
    obtain ⟨r', up', hmove, hlink, hphase⟩ := move_next_router_step hm hrows (hr k) (up k)
    have hk := heq (k + 1)
    rw [sweep, heq k] at hk
    change move_next_router _ (r k) (up k) = _ at hk
    rw [hmove, Except.ok.injEq, Prod.mk.injEq] at hk
    rw [← hk.1, ← hk.2]
    exact ⟨hlink, hphase⟩
  constructor
  · intro k
    exact ⟨r k, up k, r (k + 1), up (k + 1), heq k, heq (k + 1), hr (k + 1), (hnext k).1⟩
  · intro k t ht
    obtain ⟨j, hkj, hjk, hvertex⟩ := exists_bounceVertex_eq htwo
      (fun k => bouncePhase m.num_routers (m.snakeIndex (r k)) (up k))
      (fun k => (hnext k).2) k (snakeIndex_lt ht)
    rw [bounceVertex_bouncePhase (snakeIndex_lt (hr j))] at hvertex
    refine ⟨j, hkj, hjk, up j, ?_⟩
    rw [heq j, snakeIndex_inj hvertex]

/-- From router 3 of the two by two mesh, router 2 is reached within six moves. -/
theorem sweep_visits_all_twoByTwo :
    ∃ j, 0 < j ∧ j ≤ 6
      ∧ ∃ up, sweep ((Mesh_XY .twoByTwo 1).network (.default 2) (by decide)) (3, true) j
        = .ok (2, up) :=
  (sweep_visits_all .twoByTwo ⟨rfl, rfl⟩ 1 (.default 2) (by decide) rfl 3 (by decide) true).2 0 2
    (by decide)

end Sweep

end Bindu.Garnet
