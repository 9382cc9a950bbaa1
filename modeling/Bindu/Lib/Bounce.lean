/-
A token that walks back and forth on a path.

The path has vertices `0, ..., n - 1` and the token turns round at the ends. Its position
and direction together are a phase in a cycle of length `2 * (n - 1)`: up the path, then down
again. Every window of that many steps therefore visits every vertex.
-/
import Mathlib.Tactic

namespace Bindu.Lib

/-- The phase of a token at vertex `i` that is going up if `up` is set. At the ends the
direction does not matter, because the token turns round there. -/
def bouncePhase (n i : ℕ) (up : Bool) : ℕ :=
  if i = 0 then 0 else if i = n - 1 then n - 1 else if up then i else 2 * (n - 1) - i

/-- The vertex of a phase. -/
def bounceVertex (n phase : ℕ) : ℕ := if phase < n then phase else 2 * (n - 1) - phase

theorem bounceVertex_bouncePhase {n i : ℕ} (hi : i < n) (up : Bool) :
    bounceVertex n (bouncePhase n i up) = i := by
  unfold bouncePhase bounceVertex
  split_ifs <;> omega

/-- A step up, and a step down. -/
theorem bouncePhase_up {n i : ℕ} (hi : i + 1 < n) (up : Bool) (h : i = 0 ∨ up = true) :
    bouncePhase n (i + 1) true = (bouncePhase n i up + 1) % (2 * (n - 1)) := by
  have hphase : bouncePhase n i up = i := by
    rcases h with rfl | rfl
    · simp [bouncePhase]
    · simp only [bouncePhase, ↓reduceIte]
      split_ifs <;> omega
  rw [hphase, Nat.mod_eq_of_lt (by omega)]
  simp only [bouncePhase, ↓reduceIte]
  split_ifs <;> omega

theorem bouncePhase_down {n i : ℕ} (hi : i + 1 < n) (up : Bool) (h : i + 1 = n - 1 ∨ up = false) :
    bouncePhase n i false = (bouncePhase n (i + 1) up + 1) % (2 * (n - 1)) := by
  have hphase : bouncePhase n (i + 1) up + 1 = 2 * (n - 1) - i := by
    by_cases hend : i + 1 = n - 1
    · rw [bouncePhase, if_neg (by omega), if_pos hend]
      omega
    · obtain rfl : up = false := h.resolve_left hend
      rw [bouncePhase, if_neg (by omega), if_neg hend, if_neg Bool.false_ne_true]
      omega
  rw [hphase]
  rcases Nat.eq_zero_or_pos i with rfl | hpos
  · simp [bouncePhase]
  · rw [Nat.mod_eq_of_lt (by omega), bouncePhase, if_neg (by omega), if_neg (by omega)]
    simp

/-- **The sweep.** A phase that advances by one modulo `2 * (n - 1)` passes every vertex
within any `2 * (n - 1)` consecutive steps. -/
theorem exists_bounceVertex_eq {n : ℕ} (hn : 2 ≤ n) (phase : ℕ → ℕ)
    (hstep : ∀ k, phase (k + 1) = (phase k + 1) % (2 * (n - 1))) (k : ℕ) {t : ℕ} (ht : t < n) :
    ∃ j, k < j ∧ j ≤ k + 2 * (n - 1) ∧ bounceVertex n (phase j) = t := by
  have hP : 0 < 2 * (n - 1) := by omega
  have hrun : ∀ j, 0 < j → phase (k + j) = (phase k + j) % (2 * (n - 1)) := by
    intro j
    induction j with
    | zero => intro h; omega
    | succ j ih =>
      intro _
      rcases Nat.eq_zero_or_pos j with rfl | hj
      · exact hstep k
      · rw [← Nat.add_assoc, hstep, ih hj, Nat.mod_add_mod, Nat.add_assoc]
  -- the number of steps from the present phase to phase `t`, between 1 and the period
  set P := 2 * (n - 1)
  have hlt := Nat.mod_lt (phase k) hP
  have hdiv := Nat.div_add_mod (phase k) P
  by_cases hle : phase k % P < t
  · refine ⟨k + (t - phase k % P), by omega, by omega, ?_⟩
    rw [hrun _ (by omega), bounceVertex]
    have : (phase k + (t - phase k % P)) % P = t := by
      rw [show phase k + (t - phase k % P) = t + P * (phase k / P) by omega,
        Nat.add_mul_mod_self_left, Nat.mod_eq_of_lt (by omega)]
    rw [this, if_pos ht]
  · refine ⟨k + (P + t - phase k % P), by omega, by omega, ?_⟩
    rw [hrun _ (by omega), bounceVertex]
    have : (phase k + (P + t - phase k % P)) % P = t := by
      rw [show phase k + (P + t - phase k % P) = t + P * (phase k / P + 1) by
        rw [Nat.mul_add]; omega, Nat.add_mul_mod_self_left, Nat.mod_eq_of_lt (by omega)]
    rw [this, if_pos ht]

end Bindu.Lib
