/-
Intervals cut at block boundaries.

An interval of addresses is cut at the multiples of a block size. A program produces the pieces
one after the other, in a loop that goes from the end of one block to the next; `Cut` follows
that loop, and the lemmas below it say what comes of the loop.
-/
import Mathlib.Tactic

namespace Bindu.Lib

open Nat List

/-- Where the block of `x` ends. -/
def blockEnd (B x : ℕ) : ℕ := (x / B + 1) * B

theorem lt_blockEnd {B : ℕ} (hB : 0 < B) (x : ℕ) : x < blockEnd B x := by
  rw [blockEnd, mul_comm]
  exact lt_mul_div_succ x hB

/-- The pieces `(address, length)` of the interval from `x` to `e`. -/
inductive Cut (B e : ℕ) : ℕ → List (ℕ × ℕ) → Prop
  | nil {x : ℕ} : e ≤ x → Cut B e x []
  | cons {x : ℕ} {rest : List (ℕ × ℕ)} : x < e → Cut B e (blockEnd B x) rest →
      Cut B e x ((x, min (blockEnd B x) e - x) :: rest)

namespace Cut

variable {B e x : ℕ} {l : List (ℕ × ℕ)}

theorem tiles (hB : 0 < B) (h : Cut B e x l) :
    l.flatMap (fun p => range' p.1 p.2) = range' x (e - x) := by
  induction h with
  | nil hle => rw [Nat.sub_eq_zero_of_le hle, flatMap_nil, range'_zero]
  | @cons x rest hlt _ ih =>
    have hx := lt_blockEnd hB x
    rw [flatMap_cons, ih]
    rcases le_total (blockEnd B x) e with hle | hle
    · have hjoin := range'_append_1 (s := x) (m := blockEnd B x - x) (n := e - blockEnd B x)
      rw [Nat.add_sub_cancel' hx.le, show blockEnd B x - x + (e - blockEnd B x) = e - x by omega]
        at hjoin
      rw [min_eq_left hle]
      exact hjoin
    · rw [min_eq_right hle, Nat.sub_eq_zero_of_le hle, range'_zero, append_nil]

theorem piece (hB : 0 < B) (h : Cut B e x l) {p : ℕ × ℕ} (hp : p ∈ l) :
    0 < p.2 ∧ (p.1 + p.2 - 1) / B = p.1 / B := by
  induction h with
  | nil => exact absurd hp not_mem_nil
  | @cons x rest hlt _ ih =>
    rcases mem_cons.mp hp with rfl | hp
    · have hx := lt_blockEnd hB x
      have hle : x ≤ x + (min (blockEnd B x) e - x) - 1 := by omega
      refine ⟨by omega, le_antisymm (Nat.lt_succ_iff.mp ?_) (Nat.div_le_div_right hle)⟩
      refine (Nat.div_lt_iff_lt_mul hB).mpr ?_
      change _ < blockEnd B x
      omega
    · exact ih hp

/-- A piece starts where the pieces before it end, and only the last one ends the interval. -/
theorem start_eq (hB : 0 < B) {pre post : List (ℕ × ℕ)} {p : ℕ × ℕ}
    (h : Cut B e x (pre ++ p :: post)) :
    p.1 = x + (pre.map Prod.snd).sum ∧ p.1 + p.2 ≤ e ∧ (p.1 + p.2 = e ↔ post = []) := by
  induction pre generalizing x with
  | nil =>
    rcases h with _ | ⟨hlt, hrest⟩
    refine ⟨rfl, by dsimp only; omega, ?_⟩
    cases hrest with
    | nil hle => exact iff_of_true (by dsimp only; omega) rfl
    | cons hlt' => exact iff_of_false (by dsimp only; omega) (cons_ne_nil _ _)
  | cons p0 pre ih =>
    rcases h with _ | ⟨hlt, hrest⟩
    have hx := lt_blockEnd hB x
    obtain ⟨hp, hle, hlast⟩ := ih hrest
    refine ⟨?_, hle, hlast⟩
    rw [map_cons, sum_cons, hp]
    omega

end Cut

theorem and_high {x k : ℕ} (hx : x < 2 ^ 64) (hk : k ≤ 64) :
    x &&& (2 ^ 64 - 1 - (2 ^ k - 1)) = (x / 2 ^ k) <<< k := by
  have hmask : 2 ^ 64 - 1 - (2 ^ k - 1) = (2 ^ (64 - k) - 1) * 2 ^ k := by
    have hpow : 2 ^ (64 - k) * 2 ^ k = 2 ^ 64 := by rw [← pow_add, Nat.sub_add_cancel hk]
    have := Nat.one_le_two_pow (n := k)
    rw [Nat.sub_mul, hpow]
    omega
  refine Nat.eq_of_testBit_eq (fun j => ?_)
  rw [hmask, testBit_and, testBit_mul_two_pow, testBit_two_pow_sub_one,
    testBit_shiftLeft, testBit_div_two_pow]
  by_cases hj : k ≤ j
  · by_cases hj64 : j < 64
    · simp [hj, show j - k < 64 - k by omega]
    · have hbit : x.testBit j = false :=
        Nat.testBit_lt_two_pow (hx.trans_le (Nat.pow_le_pow_right (by norm_num) (by omega)))
      simp [hj, hbit]
  · simp [hj]

end Bindu.Lib
