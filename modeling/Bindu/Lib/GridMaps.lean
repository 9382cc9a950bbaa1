/-
Maps of a square grid and of bit strings.

A number below `R * R` is a place in a grid of `R` columns and `R` rows, and a map of the places
is a map of the numbers. If it is one-to-one on the places it is one-to-one on the numbers. The
second half reverses the low bits of a number and says which bit of the result is which.
-/
import Mathlib.Tactic

namespace Bindu.Lib

open Nat

/-! ## A grid -/

/-- The places of a grid: column and row. -/
def gridBox (R : ℕ) : Set (ℕ × ℕ) := {c | c.1 < R ∧ c.2 < R}

def gridIndex (R : ℕ) (c : ℕ × ℕ) : ℕ := c.2 * R + c.1

def gridPlace (R n : ℕ) : ℕ × ℕ := (n % R, n / R)

theorem gridPlace_gridIndex {R : ℕ} {c : ℕ × ℕ} (h : c ∈ gridBox R) :
    gridPlace R (gridIndex R c) = c := by
  obtain ⟨hx, hy⟩ := h
  have hpos : 0 < R := by omega
  rw [gridPlace, gridIndex, mul_comm, mul_add_mod, mod_eq_of_lt hx,
    mul_add_div hpos, div_eq_of_lt hx, add_zero]

theorem gridIndex_gridPlace (R n : ℕ) : gridIndex R (gridPlace R n) = n := by
  rw [gridIndex, gridPlace, mul_comm]
  exact div_add_mod n R

theorem gridIndex_lt {R : ℕ} {c : ℕ × ℕ} (h : c ∈ gridBox R) : gridIndex R c < R * R := by
  obtain ⟨hx, hy⟩ := h
  have hrow : (c.2 + 1) * R ≤ R * R := mul_le_mul_right R hy
  rw [add_mul, one_mul] at hrow
  unfold gridIndex
  omega

theorem gridPlace_mem {R n : ℕ} (h : n < R * R) : gridPlace R n ∈ gridBox R := by
  have hpos : 0 < R := by
    by_contra hzero
    rw [Nat.eq_zero_of_not_pos hzero] at h
    omega
  exact ⟨Nat.mod_lt n hpos, Nat.div_lt_of_lt_mul h⟩

/-- **A one-to-one map of the places is one of the numbers.** -/
theorem bijOn_grid {R : ℕ} {σ : ℕ × ℕ → ℕ × ℕ} (h : Set.BijOn σ (gridBox R) (gridBox R)) :
    Set.BijOn (fun n => gridIndex R (σ (gridPlace R n))) (Set.Iio (R * R)) (Set.Iio (R * R)) := by
  -- a number and its place determine each other
  have hinv : Set.InvOn (gridIndex R) (gridPlace R) (Set.Iio (R * R)) (gridBox R) :=
    ⟨fun n _ => gridIndex_gridPlace R n, fun c hc => gridPlace_gridIndex hc⟩
  have hto : Set.MapsTo (gridPlace R) (Set.Iio (R * R)) (gridBox R) :=
    fun n hn => gridPlace_mem hn
  have hfrom : Set.MapsTo (gridIndex R) (gridBox R) (Set.Iio (R * R)) :=
    fun c hc => gridIndex_lt hc
  have hplace := hinv.bijOn hto hfrom
  have hindex := hinv.symm.bijOn hfrom hto
  exact hindex.comp (h.comp hplace)

theorem gridIndex_twice {R : ℕ} {σ : ℕ × ℕ → ℕ × ℕ} (hmaps : Set.MapsTo σ (gridBox R) (gridBox R))
    (hinv : ∀ c ∈ gridBox R, σ (σ c) = c) {n : ℕ} (hn : n < R * R) :
    gridIndex R (σ (gridPlace R (gridIndex R (σ (gridPlace R n))))) = n := by
  have hmem := gridPlace_mem hn
  rw [gridPlace_gridIndex (hmaps hmem), hinv _ hmem, gridIndex_gridPlace]

theorem bijOn_of_involutive {A : Type} {f : A → A} {s : Set A} (hmaps : Set.MapsTo f s s)
    (hinv : ∀ a ∈ s, f (f a) = a) : Set.BijOn f s s :=
  Set.InvOn.bijOn ⟨hinv, hinv⟩ hmaps hmaps

theorem bijOn_shift (R c : ℕ) :
    Set.BijOn (fun q : ℕ × ℕ => ((q.1 + c) % R, q.2)) (gridBox R) (gridBox R) := by
  have hback : ∀ x a b : ℕ, x < R → (a + b) % R = 0 → ((x + a) % R + b) % R = x := by
    intro x a b hx hab
    rw [mod_add_mod, add_assoc, add_mod, hab, add_zero, mod_mod, mod_eq_of_lt hx]
  -- the way back is the rest of the row
  have hsum : ∀ hpos : 0 < R, (c + (R - c % R)) % R = 0 := by
    intro hpos
    have hlt := mod_lt c hpos
    have hdiv := div_add_mod c R
    rw [show c + (R - c % R) = R * (c / R + 1) by rw [mul_add, mul_one]; omega, mul_mod_right]
  have hmaps : ∀ a, Set.MapsTo (fun q : ℕ × ℕ => ((q.1 + a) % R, q.2)) (gridBox R) (gridBox R) := by
    rintro a ⟨x, y⟩ ⟨hx, hy⟩
    exact ⟨mod_lt _ (zero_lt_of_lt hx), hy⟩
  have hinv : Set.InvOn (fun q : ℕ × ℕ => ((q.1 + (R - c % R)) % R, q.2))
      (fun q : ℕ × ℕ => ((q.1 + c) % R, q.2)) (gridBox R) (gridBox R) := by
    constructor
    · rintro ⟨x, y⟩ ⟨hx, hy⟩
      exact Prod.ext (hback x c _ hx (hsum (zero_lt_of_lt hx))) rfl
    · rintro ⟨x, y⟩ ⟨hx, hy⟩
      refine Prod.ext (hback x _ c hx ?_) rfl
      rw [add_comm]
      exact hsum (zero_lt_of_lt hx)
  exact hinv.bijOn (hmaps c) (hmaps _)

/-! ## Bits -/

/-- The low `n` bits of a number, in reverse. -/
def reverseBits : ℕ → ℕ → ℕ
  | 0, _ => 0
  | n + 1, a => reverseBits n a * 2 + a / 2 ^ n % 2

theorem reverseBits_succ (n a : ℕ) :
    reverseBits (n + 1) a = reverseBits n a * 2 + a / 2 ^ n % 2 := rfl

theorem reverseBits_lt (n a : ℕ) : reverseBits n a < 2 ^ n := by
  induction n with
  | zero => exact one_pos
  | succ n ih =>
    rw [reverseBits_succ, pow_succ]
    omega

/-- **Which bit of the reversal is which.** -/
theorem testBit_reverseBits {n j : ℕ} (a : ℕ) (hj : j < n) :
    (reverseBits n a).testBit j = a.testBit (n - 1 - j) := by
  induction n generalizing j with
  | zero => exact absurd hj (not_lt_zero j)
  | succ n ih =>
    rw [reverseBits_succ]
    cases j with
    | zero =>
      -- the bit that came last
      rw [Nat.testBit_zero, Nat.sub_zero, Nat.add_sub_cancel, Nat.testBit_eq_decide_div_mod_eq,
        Nat.mul_comm, Nat.mul_add_mod, Nat.mod_mod]
    | succ j =>
      rw [Nat.testBit_succ,
        show (reverseBits n a * 2 + a / 2 ^ n % 2) / 2 = reverseBits n a by omega,
        ih (by omega)]
      congr 1
      omega

/-- **Reversing twice.** -/
theorem reverseBits_reverseBits {n a : ℕ} (ha : a < 2 ^ n) :
    reverseBits n (reverseBits n a) = a := by
  apply eq_of_testBit_eq
  intro j
  by_cases hj : j < n
  · rw [testBit_reverseBits _ hj, testBit_reverseBits _ (by omega)]
    congr 1
    omega
  · have hpow : 2 ^ n ≤ 2 ^ j := Nat.pow_le_pow_right (by decide) (Nat.le_of_not_lt hj)
    rw [Nat.testBit_lt_two_pow (lt_of_lt_of_le (reverseBits_lt n _) hpow),
      Nat.testBit_lt_two_pow (lt_of_lt_of_le ha hpow)]

end Bindu.Lib
