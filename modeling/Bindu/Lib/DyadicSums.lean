/-
Counting in blocks of a power of two.

The numbers from `k * 2 ^ i` up to `(k + 1) * 2 ^ i` are block `k` of layer `i`. Two
neighbouring blocks make up one of the layer above, so the number of marked elements of a
block is the sum over its halves, and a mark that changes only changes the blocks it is in.
Going up from an element, the right neighbours of the blocks that are left halves cover
everything behind the element: their sums count the marks behind it.
-/
import Mathlib.Algebra.Order.Interval.Finset.Basic
import Mathlib.Tactic

namespace Bindu.Lib

open Function Nat

variable (live : ℕ → Bool)

/-- The number of marked elements in block `k` of layer `i`. -/
def blockSum : ℕ → ℕ → ℕ
  | 0, k => if live k then 1 else 0
  | i + 1, k => blockSum i (2 * k) + blockSum i (2 * k + 1)

/-- The marks behind block `k` of layer `i`, up to the end of its block `d` layers above. -/
def rightSum : ℕ → ℕ → ℕ → ℕ
  | 0, _, _ => 0
  | d + 1, i, k => (if k % 2 = 0 then blockSum live i (k + 1) else 0) + rightSum d (i + 1) (k / 2)

/-- The number of marked elements from `a` up to `b`. -/
def marks (a b : ℕ) : ℕ := ((Finset.Ico a b).filter (fun x => live x = true)).card

variable {live}

theorem blockSum_le (i k : ℕ) : blockSum live i k ≤ 2 ^ i := by
  induction i generalizing k with
  | zero =>
    rw [blockSum]
    split_ifs <;> simp
  | succ i ih =>
    have h1 := ih (2 * k)
    have h2 := ih (2 * k + 1)
    rw [blockSum, pow_succ]
    omega

theorem div_two_pow_succ (j i : ℕ) : j / 2 ^ (i + 1) = j / 2 ^ i / 2 := by
  rw [pow_succ, Nat.div_div_eq_div_mul]

theorem blockSum_update_of_ne {j i k : ℕ} (b : Bool) (h : j / 2 ^ i ≠ k) :
    blockSum (update live j b) i k = blockSum live i k := by
  induction i generalizing k with
  | zero =>
    have hne : k ≠ j := by
      rintro rfl
      exact h (by simp)
    rw [blockSum, blockSum, update_of_ne hne]
  | succ i ih =>
    rw [div_two_pow_succ] at h
    rw [blockSum, blockSum, ih (by omega), ih (by omega)]

/-- Going up one layer from a block that `j` is in. -/
theorem rightSum_succ (d i j : ℕ) :
    rightSum live (d + 1) i (j / 2 ^ i)
      = (if j / 2 ^ i % 2 = 0 then blockSum live i (j / 2 ^ i + 1) else 0)
        + rightSum live d (i + 1) (j / 2 ^ (i + 1)) := by
  rw [rightSum, div_two_pow_succ]

/-! ## Blocks that are over

A block whose end is at most `n` and in which nothing is marked. When marks are only set at
`n` or removed, such a block stays empty. -/

/-- Block `k` of layer `i` ends before `n` and has no mark. -/
def Gone (live : ℕ → Bool) (n i k : ℕ) : Prop := (k + 1) * 2 ^ i ≤ n ∧ blockSum live i k = 0

theorem Gone.of_halves {n i k : ℕ} (hl : Gone live n i (2 * k)) (hr : Gone live n i (2 * k + 1)) :
    Gone live n (i + 1) k := by
  constructor
  · calc (k + 1) * 2 ^ (i + 1) = (2 * k + 1 + 1) * 2 ^ i := by ring
      _ ≤ n := hr.1
  · rw [blockSum, hl.2, hr.2]

theorem blockSum_eq_zero {i k : ℕ} (h : ∀ x, k * 2 ^ i ≤ x → live x = false) :
    blockSum live i k = 0 := by
  induction i generalizing k with
  | zero => simp [blockSum, h k (by simp)]
  | succ i ih =>
    have hstart : k * 2 ^ (i + 1) = 2 * k * 2 ^ i := by ring
    have hmid : 2 * k * 2 ^ i ≤ (2 * k + 1) * 2 ^ i := mul_le_mul_right _ (by omega)
    rw [hstart] at h
    rw [blockSum, ih h, ih (fun x hx => h x (hmid.trans hx))]

theorem blockSum_pos {j : ℕ} (h : live j = true) (i : ℕ) : 0 < blockSum live i (j / 2 ^ i) := by
  induction i with
  | zero => simp [blockSum, h]
  | succ i ih =>
    rw [div_two_pow_succ, blockSum]
    rcases mod_two_eq_zero_or_one (j / 2 ^ i) with hj | hj
    · rw [show 2 * (j / 2 ^ i / 2) = j / 2 ^ i by omega]
      omega
    · rw [show 2 * (j / 2 ^ i / 2) + 1 = j / 2 ^ i by omega]
      omega

theorem blockSum_remove_le (j i k : ℕ) :
    blockSum (update live j false) i k ≤ blockSum live i k := by
  induction i generalizing k with
  | zero =>
    by_cases hk : k = j
    · rw [blockSum, hk, update_self]
      simp
    · rw [blockSum, blockSum, update_of_ne hk]
  | succ i ih => exact Nat.add_le_add (ih _) (ih _)

/-- `live'` differs from `live` in the mark of `j` only, and what was over stays so. -/
structure Marking (live live' : ℕ → Bool) (n n' j : ℕ) : Prop where
  sum_eq : ∀ i k, j / 2 ^ i ≠ k → blockSum live' i k = blockSum live i k
  gone : ∀ i k, Gone live n i k → Gone live' n' i k

theorem Marking.remove (live : ℕ → Bool) (n j : ℕ) :
    Marking live (update live j false) n n j := by
  refine ⟨fun i k hk => blockSum_update_of_ne false hk, ?_⟩
  intro i k h
  have hle : blockSum (update live j false) i k ≤ blockSum live i k :=
    blockSum_remove_le j i k
  exact ⟨h.1, by rw [h.2] at hle; omega⟩

theorem Marking.add (live : ℕ → Bool) (n : ℕ) :
    Marking live (update live n true) n (n + 1) n := by
  refine ⟨fun i k hk => blockSum_update_of_ne true hk, ?_⟩
  intro i k h
  -- `n` lies behind a block that ends before it
  have hne : n / 2 ^ i ≠ k := by
    have hlt : k < n / 2 ^ i := (le_div_iff_mul_le (by positivity)).mpr h.1
    omega
  exact ⟨h.1.trans (le_succ n), by rw [blockSum_update_of_ne true hne, h.2]⟩

/-! ## Sums as numbers of marks -/

theorem marks_add {a b c : ℕ} (hab : a ≤ b) (hbc : b ≤ c) :
    marks live a b + marks live b c = marks live a c := by
  rw [marks, marks, marks, ← Finset.Ico_union_Ico_eq_Ico hab hbc, Finset.filter_union,
    Finset.card_union_of_disjoint]
  exact Finset.disjoint_filter_filter (Finset.Ico_disjoint_Ico_consecutive a b c)

theorem blockSum_eq_marks (i k : ℕ) :
    blockSum live i k = marks live (k * 2 ^ i) ((k + 1) * 2 ^ i) := by
  induction i generalizing k with
  | zero =>
    rw [blockSum, marks, pow_zero, mul_one, mul_one, Ico_succ_singleton, Finset.filter_singleton]
    split_ifs <;> simp
  | succ i ih =>
    have hmid : 2 * k * 2 ^ i ≤ (2 * k + 1) * 2 ^ i := mul_le_mul_right _ (by omega)
    have hend : (2 * k + 1) * 2 ^ i ≤ (2 * k + 1 + 1) * 2 ^ i :=
      mul_le_mul_right _ (by omega)
    rw [blockSum, ih, ih, marks_add hmid hend]
    congr 1 <;> ring

theorem rightSum_eq_marks (d i k : ℕ) :
    rightSum live d i k = marks live ((k + 1) * 2 ^ i) ((k / 2 ^ d + 1) * 2 ^ (i + d)) := by
  induction d generalizing i k with
  | zero => simp [rightSum, marks]
  | succ d ih =>
    have hdiv : k / 2 ^ (d + 1) = k / 2 / 2 ^ d := by
      rw [pow_succ', Nat.div_div_eq_div_mul]
    have hexp : i + 1 + d = i + (d + 1) := by omega
    rw [rightSum, ih, hdiv, hexp]
    rcases Nat.mod_two_eq_zero_or_one k with hk | hk
    · -- the block is a left half: its right neighbour ends where the block above does
      have hend : (k + 1 + 1) * 2 ^ i = (k / 2 + 1) * 2 ^ (i + 1) := by
        rw [pow_succ, show k + 1 + 1 = (k / 2 + 1) * 2 by omega]
        ring
      have hle : (k / 2 + 1) * 2 ^ (i + 1) ≤ (k / 2 / 2 ^ d + 1) * 2 ^ (i + (d + 1)) := by
        calc (k / 2 + 1) * 2 ^ (i + 1) ≤ (k / 2 / 2 ^ d * 2 ^ d + 2 ^ d) * 2 ^ (i + 1) := by
              refine mul_le_mul_right _ ?_
              exact lt_div_mul_add (by positivity)
          _ = (k / 2 / 2 ^ d + 1) * 2 ^ (i + (d + 1)) := by
              rw [show i + (d + 1) = d + (i + 1) by omega, pow_add 2 d]
              ring
      rw [if_pos hk, blockSum_eq_marks, hend, marks_add _ hle]
      rw [← hend]
      exact mul_le_mul_right _ (by omega)
    · have hend : (k + 1) * 2 ^ i = (k / 2 + 1) * 2 ^ (i + 1) := by
        rw [pow_succ, show k + 1 = (k / 2 + 1) * 2 by omega]
        ring
      rw [if_neg (by omega), zero_add, hend]

theorem rightSum_zero {j d : ℕ} (h : j < 2 ^ d) :
    rightSum live d 0 j = marks live (j + 1) (2 ^ d) := by
  rw [rightSum_eq_marks, div_eq_of_lt h]
  simp

end Bindu.Lib
