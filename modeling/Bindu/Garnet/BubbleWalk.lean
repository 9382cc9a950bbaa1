/-
On which meshes the walk of a bubble is safe.

`move_next_router` takes `m_num_rows` for the number of rows and for the length of a row,
and turns round at the first router of the last row. In a square mesh with an even number
of rows that router is the last one of the snake order. With an odd number of rows it is
not: a bubble that starts behind it with rising sense runs off the end of the mesh. In a
mesh that is not square the step to the next row does not lead to a neighbour.

Source: `GarnetNetwork::move_next_router`.
-/
import Bindu.Garnet.Snake

open Bindu.Lib Nat

namespace Bindu.Garnet

open MeshSize

section BubbleWalk

variable {m : MeshSize} {lat : ℕ} {p : Params} {shape : 0 < p.num_rows →
  p.num_rows * ((Mesh_XY m lat).m_number_of_switches / p.num_rows)
    = (Mesh_XY m lat).m_number_of_switches}

/-! ## Square meshes -/

/-- In a square mesh, router `r` is not behind the router at which the walk turns. -/
theorem MeshSize.le_turn_iff (hsq : m.num_columns = m.num_rows) {r : ℕ} (hr : r < m.num_routers) :
    r ≤ m.num_rows * m.num_rows - m.num_rows ↔ m.y r + 1 < m.num_rows ∨ m.x r = 0 := by
  have hx := x_lt (m := m) r
  have hy := y_lt hr
  have hxy := x_add_y (m := m) r
  have hturn : m.num_rows * m.num_rows - m.num_rows = (m.num_rows - 1) * m.num_columns := by
    rw [hsq, Nat.sub_mul, Nat.one_mul]
  rw [hturn]
  have hle : (m.y r + 1) * m.num_columns ≤ m.num_rows * m.num_columns :=
    Nat.mul_le_mul_right _ hy
  rw [Nat.add_mul, Nat.one_mul] at hle
  rw [Nat.sub_mul, Nat.one_mul]
  constructor
  · intro h
    by_contra hnot
    have hlast : m.y r + 1 = m.num_rows := by omega
    rw [← hlast, add_mul, one_mul] at h
    omega
  · rintro (h | h)
    · have hle' : (m.y r + 1 + 1) * m.num_columns ≤ m.num_rows * m.num_columns :=
        mul_le_mul_right _ h
      rw [add_mul, add_mul, one_mul] at hle'
      omega
    · omega

/-- The bubble does not run off the end of the mesh: the number of rows is even, or it has
not passed the turn, or it comes back. -/
def Returns (m : MeshSize) (r : ℕ) (sense : Bool) : Prop :=
  m.num_rows % 2 = 0 ∨ r ≤ m.num_rows * m.num_rows - m.num_rows ∨ sense = false

variable {sense : Bool}

variable (lat shape) in
/-- **One move in a square mesh.** A bubble that does not run off the end moves to a
neighbour, and still does not. -/
theorem Returns.move_next_router (hsq : m.num_columns = m.num_rows) (htwo : 2 ≤ m.num_rows)
    (hrows : p.num_rows = m.num_rows) {r : ℕ} (hr : r < m.num_routers) (h : Returns m r sense) :
    ∃ r' up, move_next_router ((Mesh_XY m lat).network p shape) r sense = .ok (r', up)
      ∧ (∃ d, m.MeshLink r r' d) ∧ Returns m r' up := by
  cases hup : turn_sense m.num_columns r sense with
  | true =>
    -- going up: the bubble is not at the turn, hence before it if the number of rows is odd
    obtain ⟨hnot, hsense⟩ := turn_sense_up hsq htwo hr hup
    have hy := y_lt hr
    have hbefore : m.num_rows % 2 = 0 ∨ m.y r + 1 < m.num_rows := by
      rcases h with h | h | h
      · exact .inl h
      · rw [le_turn_iff hsq hr] at h
        omega
      · rw [h] at hsense
        have := hsense.resolve_right Bool.false_ne_true
        omega
    obtain ⟨r', d, hmove, hlink, hidx⟩ := move_up shape hsq htwo hr hrows hup hbefore
    refine ⟨r', true, hmove, ⟨d, hlink⟩, ?_⟩
    by_cases hpar : m.num_rows % 2 = 0
    · exact .inl hpar
    refine .inr (.inl ((le_turn_iff hsq hlink.2.1).mpr ?_))
    -- the first router of the last row follows the row before it in the snake order
    by_contra hbehind
    have hlt : m.snakeIndex r < (m.y r + 1) * m.num_columns := by
      have := x_lt (m := m) r
      rw [snakeIndex, add_mul]
      split_ifs <;> omega
    have hle : (m.y r + 1) * m.num_columns ≤ m.y r' * m.num_columns :=
      mul_le_mul_right _ (by omega)
    rw [snakeIndex, if_pos (by have := y_lt hlink.2.1; omega)] at hidx
    omega
  | false =>
    obtain ⟨r', d, hmove, hlink, -⟩ := move_down shape hsq hr hrows hup
    exact ⟨r', false, hmove, ⟨d, hlink⟩, .inr (.inr rfl)⟩

/-! ## Walks that go on for ever -/

theorem move_next_router_ok {net : GarnetNetwork} {r r' : ℕ} {sense up : Bool}
    (h : move_next_router net r sense = .ok (r', up)) :
    up = turn_sense net.m_num_rows r sense
      ∧ (r' : ℤ) = next_router_id net.m_num_rows r up ∧ r' < net.num_routers := by
  obtain ⟨_, h1, h⟩ := bind_eq_ok.mp h
  obtain ⟨_, h2, h⟩ := bind_eq_ok.mp h
  rw [assert_ok_iff, decide_eq_true_eq] at h1 h2
  cases h
  exact ⟨rfl, Int.toNat_of_nonneg h1, by omega⟩

/-- The number of moves until a bubble leaves its row, in rows of `w` routers: to the right
end, or to the left end and perhaps back. -/
def stepsInRow (w r : ℕ) (sense : Bool) : ℕ :=
  if headingRight (r / w) (turn_sense w r sense) then w - 1 - r % w else r % w + w

/-- **A mesh that is not square.** A move to a neighbour stays in the row that
`move_next_router` sees, and brings the bubble nearer to leaving it. -/
theorem stepsInRow_lt (hne : m.num_columns ≠ m.num_rows) (htwo : 2 ≤ m.num_rows)
    (hrows : p.num_rows = m.num_rows) {r r' : ℕ} {sense up : Bool} {d : PortDirection}
    (h : move_next_router ((Mesh_XY m lat).network p shape) r sense = .ok (r', up))
    (hlink : m.MeshLink r r' d) :
    stepsInRow m.num_rows r' up < stepsInRow m.num_rows r sense := by
  obtain ⟨hup, hnext, -⟩ := move_next_router_ok h
  rw [(mesh_num_cols shape hrows).1] at hup hnext
  set w := m.num_rows
  have hcol : r % w < w := mod_lt _ (by omega)
  have hcoords : r % w + r / w * w = r := by
    rw [mul_comm]
    exact mod_add_div r w
  have hrow : ∀ {k}, r' = k + r / w * w → k < w → r' % w = k ∧ r' / w = r / w := by
    rintro k rfl hk
    rw [add_mul_mod_self_right, mod_eq_of_lt hk,
      add_mul_div_right _ _ (by omega), div_eq_of_lt hk, zero_add]
    exact ⟨rfl, rfl⟩
  have hform := next_router_id_of hcol (r / w) up
  rw [hcoords, ← hnext] at hform
  -- a neighbour is one number or a whole row of the mesh away, never `w`
  have hnear : r' = r + 1 ∨ r = r' + 1 ∨ r' = r + m.num_columns ∨ r = r' + m.num_columns := by
    obtain ⟨heast, hwest, hnorth, hsouth⟩ := hlink.router_id
    obtain ⟨-, -, hadj⟩ := hlink
    cases d <;> simp only [MeshSize.Adjacent] at hadj
    · exact .inl (heast rfl)
    · exact .inr (.inl (hwest rfl))
    · exact .inr (.inr (.inl (hnorth rfl)))
    · exact .inr (.inr (.inr (hsouth rfl)))
  have hsum : ((r % w : ℕ) : ℤ) + ((r / w : ℕ) : ℤ) * w = r := by exact_mod_cast hcoords
  push_cast at hsum
  rw [stepsInRow, stepsInRow, ← hup]
  by_cases hright : headingRight (r / w) up = true
  · rw [if_pos hright] at hform ⊢
    split_ifs at hform with hend hsense
    · omega
    · omega
    · obtain ⟨hmod, hdiv⟩ := hrow (k := r % w + 1) (by omega) (by omega)
      -- the next router is not one of the two at which the sense turns
      have hturn : turn_sense w r' up = up := by
        have hzero : ¬ ((r' : ℤ) = 0) := by omega
        have hlast : ¬ ((r' : ℤ) = (w : ℤ) * w - w) := by
          intro heq
          have : r' = 0 + (w - 1) * w := by
            zify [show 1 ≤ w by omega]
            rw [heq]
            ring
          rw [this, add_mul_mod_self_right, zero_mod] at hmod
          omega
        rw [turn_sense, if_neg hzero, if_neg hlast]
      rw [hturn, hmod, hdiv, if_pos hright]
      omega
  · rw [if_neg hright] at hform ⊢
    split_ifs at hform with hend hsense
    · omega
    · omega
    · obtain ⟨hmod, -⟩ := hrow (k := r % w - 1) (by omega) (by omega)
      rw [hmod]
      split_ifs <;> omega

/-- **Behind the turn.** In a square mesh with an odd number of rows, a bubble behind the turn
that goes up only moves on along the last row. -/
theorem move_behind_turn (hsq : m.num_columns = m.num_rows) (hodd : m.num_rows % 2 = 1)
    (htwo : 2 ≤ m.num_rows) (hrows : p.num_rows = m.num_rows) {r r' : ℕ} {up : Bool}
    (hr : r < m.num_routers) (hbehind : m.num_rows * m.num_rows - m.num_rows < r)
    (h : move_next_router ((Mesh_XY m lat).network p shape) r true = .ok (r', up)) :
    r' = r + 1 ∧ up = true := by
  obtain ⟨hup, hnext, hr'⟩ := move_next_router_ok h
  rw [(mesh_num_cols shape hrows).1] at hup hnext
  have hcol := x_lt (m := m) r
  have hy := y_lt hr
  have hxy := x_add_y (m := m) r
  have hlast : ¬ (m.y r + 1 < m.num_rows ∨ m.x r = 0) := by
    rw [← le_turn_iff hsq hr]
    omega
  have hle : m.num_rows ≤ m.num_rows * m.num_rows := Nat.le_mul_of_pos_left _ (by omega)
  have hturn : turn_sense m.num_rows r true = true := by
    have h2 : ¬ ((r : ℤ) = (m.num_rows : ℤ) * m.num_rows - m.num_rows) := by
      intro heq
      have : (r : ℤ) = ((m.num_rows * m.num_rows - m.num_rows : ℕ) : ℤ) := by
        rw [heq]
        push_cast [hle]
        ring
      omega
    have h1 : ¬ ((r : ℤ) = 0) := by omega
    rw [turn_sense, if_neg h1, if_neg h2]
  rw [hturn] at hup
  subst hup
  refine ⟨?_, rfl⟩
  have hform := next_router_id_of hcol (m.y r) true
  have hright : headingRight (m.y r) true = true := by
    have heven : m.y r % 2 = 0 := by omega
    simp [headingRight, heven]
  rw [hxy, hsq, ← hnext, if_pos hright, if_pos rfl] at hform
  have hsum : ((m.x r : ℕ) : ℤ) + ((m.y r : ℕ) : ℤ) * m.num_rows = r := by
    rw [hsq] at hxy
    exact_mod_cast hxy
  split_ifs at hform with hend
  · -- the number would be that of a router one row further
    exfalso
    have hn : ((Mesh_XY m lat).network p shape).num_routers = m.num_routers := rfl
    have hN : m.num_routers = m.num_rows * m.num_columns := rfl
    have hlastRow : m.y r + 1 = m.num_rows := by omega
    rw [hn, hN, ← hlastRow, add_mul] at hr'
    omega
  · omega

/-! ## The walk -/

/-- Every move of the walk from router `start` returns and leads to a neighbour. -/
def SafeWalk (m : MeshSize) (net : GarnetNetwork) (start : ℕ) (sense : Bool) : Prop :=
  ∀ k, ∃ r up r' up', sweep net (start, sense) k = .ok (r, up)
    ∧ sweep net (start, sense) (k + 1) = .ok (r', up') ∧ ∃ d, m.MeshLink r r' d

variable {start : ℕ}

theorem SafeWalk.exists_moves {net : GarnetNetwork} (h : SafeWalk m net start sense) :
    ∃ (r : ℕ → ℕ) (up : ℕ → Bool), r 0 = start ∧ up 0 = sense
      ∧ ∀ k, move_next_router net (r k) (up k) = .ok (r (k + 1), up (k + 1))
        ∧ ∃ d, m.MeshLink (r k) (r (k + 1)) d := by
  choose r up r' up' hk hk' hlink using h
  have hsame : ∀ k, r' k = r (k + 1) ∧ up' k = up (k + 1) := by
    intro k
    have heq := (hk' k).symm.trans (hk (k + 1))
    rw [Except.ok.injEq, Prod.mk.injEq] at heq
    exact heq
  have hzero : (r 0, up 0) = (start, sense) := (Except.ok.injEq _ _).mp (hk 0).symm
  refine ⟨r, up, (Prod.mk.inj hzero).1, (Prod.mk.inj hzero).2, fun k => ?_⟩
  have hstep := hk' k
  rw [sweep, hk k, ok_bind] at hstep
  rw [← (hsame k).1, ← (hsame k).2]
  exact ⟨hstep, hlink k⟩

/-- A walk that stays safe needs a square mesh: otherwise the number of moves left in the row
would fall for ever. -/
theorem SafeWalk.square (htwo : 2 ≤ m.num_rows) (hrows : p.num_rows = m.num_rows)
    (h : SafeWalk m ((Mesh_XY m lat).network p shape) start sense) :
    m.num_columns = m.num_rows := by
  obtain ⟨r, up, -, -, hmoves⟩ := h.exists_moves
  by_contra hne
  have hfall : ∀ k, stepsInRow m.num_rows (r k) (up k) + k
      ≤ stepsInRow m.num_rows (r 0) (up 0) := by
    intro k
    induction k with
    | zero => exact le_rfl
    | succ k ih =>
      obtain ⟨hmove, d, hlink⟩ := hmoves k
      have := stepsInRow_lt hne htwo hrows hmove hlink
      omega
  have := hfall (stepsInRow m.num_rows (r 0) (up 0) + 1)
  omega

/-- A walk that stays safe does not start behind the turn of an odd mesh with rising sense:
otherwise the bubble would move on along the last row for ever. -/
theorem SafeWalk.returns (htwo : 2 ≤ m.num_rows) (hrows : p.num_rows = m.num_rows)
    (h : SafeWalk m ((Mesh_XY m lat).network p shape) start sense) : Returns m start sense := by
  have hsq := h.square htwo hrows
  obtain ⟨r, up, hr0, hup0, hmoves⟩ := h.exists_moves
  by_contra hnot
  rw [Returns, not_or, not_or, Bool.not_eq_false] at hnot
  obtain ⟨hodd, hbehind, hsense⟩ := hnot
  have hrun : ∀ k, r k = start + k ∧ up k = true := by
    intro k
    induction k with
    | zero => exact ⟨hr0, hup0.trans hsense⟩
    | succ k ih =>
      obtain ⟨hmove, d, hlink⟩ := hmoves k
      rw [ih.2] at hmove
      have := move_behind_turn hsq (by omega) htwo hrows hlink.1 (by omega) hmove
      exact ⟨by omega, this.2⟩
  obtain ⟨-, d, hlink⟩ := hmoves m.num_routers
  have hlt := hlink.1
  rw [(hrun m.num_routers).1] at hlt
  omega

/-- In a square mesh, a bubble that does not run off the end has a safe walk. -/
theorem Returns.safeWalk (hsq : m.num_columns = m.num_rows) (htwo : 2 ≤ m.num_rows)
    (hrows : p.num_rows = m.num_rows) (hstart : start < m.num_routers) (h : Returns m start sense) :
    SafeWalk m ((Mesh_XY m lat).network p shape) start sense := by
  have hrun : ∀ k, ∃ r up, sweep ((Mesh_XY m lat).network p shape) (start, sense) k
      = .ok (r, up) ∧ r < m.num_routers ∧ Returns m r up := by
    intro k
    induction k with
    | zero => exact ⟨start, sense, rfl, hstart, h⟩
    | succ k ih =>
      obtain ⟨r, up, heq, hr, hret⟩ := ih
      obtain ⟨r', up', hmove, ⟨d, hlink⟩, hret'⟩ :=
        hret.move_next_router lat shape hsq htwo hrows hr
      exact ⟨r', up', by rw [sweep, heq]; exact hmove, hlink.2.1, hret'⟩
  intro k
  obtain ⟨r, up, heq, hr, hret⟩ := hrun k
  obtain ⟨r', up', hmove, hlink, -⟩ :=
    hret.move_next_router lat shape hsq htwo hrows hr
  exact ⟨r, up, r', up', heq, by rw [sweep, heq]; exact hmove, hlink⟩

/-- **When the walk of a bubble is safe.** In every mesh with at least two rows, from every
router and with either sense: all moves return and lead to neighbours exactly if the mesh is
square and, if its number of rows is odd, the bubble does not start behind the first router
of the last row with rising sense. -/
theorem bubble_walk_safe_iff (m : MeshSize) (htwo : 2 ≤ m.num_rows) (lat : ℕ) (p : Params)
    (shape) (hrows : p.num_rows = m.num_rows) (start : ℕ) (hstart : start < m.num_routers)
    (sense : Bool) :
    SafeWalk m ((Mesh_XY m lat).network p shape) start sense
      ↔ m.num_columns = m.num_rows ∧ (m.num_rows % 2 = 0
        ∨ start ≤ m.num_rows * m.num_rows - m.num_rows ∨ sense = false) :=
  ⟨fun h => ⟨h.square htwo hrows, h.returns htwo hrows⟩,
    fun h => Returns.safeWalk h.1 htwo hrows hstart h.2⟩

/-- In the three by three mesh the walk from router 4 is safe. -/
theorem bubble_walk_safe_iff_threeByThree :
    SafeWalk .threeByThree ((Mesh_XY .threeByThree 1).network (.default 3) (by decide)) 4 true :=
  (bubble_walk_safe_iff .threeByThree (by decide) 1 (.default 3) (by decide) rfl 4 (by decide)
    true).mpr (by decide)

/-- Two rows of three routers. -/
def MeshSize.twoByThree : MeshSize :=
  ⟨2, 3, [0], Nat.two_pos, threeByThree.columns_pos, threeByThree.nodes_perm⟩

/-- **Off the mesh.** In the three by three mesh a bubble at router 8 with rising sense trips
the assertion. In the mesh of two rows and three columns a bubble at router 1 moves to
router 3, which is not a neighbour. -/
theorem bubble_walk_off_mesh :
    move_next_router ((Mesh_XY .threeByThree 1).network (.default 3) (by decide)) 8 true
        = .error .next_router
      ∧ move_next_router ((Mesh_XY .twoByThree 1).network (.default 2) (by decide)) 1 true
        = .ok (3, true)
      ∧ ∀ d, ¬ twoByThree.MeshLink 1 3 d := by
  refine ⟨rfl, rfl, ?_⟩
  rintro d ⟨-, -, h⟩
  cases d <;> simp [MeshSize.Adjacent, x, y, twoByThree] at h

end BubbleWalk

end Bindu.Garnet
