/-
A binary tree that remembers which way was taken last.

The leaves are the numbers below `2 ^ L`. The node of leaf `w` at height `i` is known by the bits
of `w` above `i`, and one bit there tells to which side the last use of a leaf below the node
went. A leaf that lies away from all these bits has been left behind at every height since it was
last used, each time by another leaf. So at least `L` others have been used since.
-/
import Mathlib.Tactic

namespace Bindu.Lib

open List

/-- Fewer than `n` different elements stand before some occurrence of `a`. In a history with the
last use in front, `a` is then among the `n` elements used last. -/
def AmongLast {α : Type} [DecidableEq α] (n : ℕ) (history : List α) (a : α) : Prop :=
  ∃ front back, history = front ++ a :: back ∧ front.toFinset.card < n

namespace RecencyTree

variable {L : ℕ} {dir dir' : ℕ → ℕ → Bool} {history : List ℕ} {w v : ℕ}

/-- `dir' i q`, the bit of the node `q` at height `i`, when leaf `w` has been used. -/
structure Used (L w : ℕ) (dir dir' : ℕ → ℕ → Bool) : Prop where
  path : ∀ i < L, dir' i (w >>> (i + 1)) = w.testBit i
  other : ∀ i < L, ∀ x < 2 ^ L, x >>> (i + 1) ≠ w >>> (i + 1) →
    dir' i (x >>> (i + 1)) = dir i (x >>> (i + 1))

/-- The bits are those of the history. -/
def Records (L : ℕ) (dir : ℕ → ℕ → Bool) (history : List ℕ) : Prop :=
  ∀ front w back, history = front ++ w :: back → ∀ i < L,
    (∀ w' ∈ front, w' >>> (i + 1) ≠ w >>> (i + 1)) → dir i (w >>> (i + 1)) = w.testBit i

/-- Leaf `v` lies away from the last use at every height. -/
def Away (L : ℕ) (dir : ℕ → ℕ → Bool) (v : ℕ) : Prop :=
  ∀ i < L, v.testBit i = !dir i (v >>> (i + 1))

theorem Records.nil : Records L dir [] :=
  fun _ _ _ h => absurd h (append_ne_nil_of_right_ne_nil _ (cons_ne_nil _ _)).symm

theorem Records.used (h : Records L dir history) (hw : Used L w dir dir')
    (hleaf : ∀ x ∈ history, x < 2 ^ L) : Records L dir' (w :: history) := by
  intro front x back heq i hi hfront
  rcases cons_eq_append_iff.1 heq with ⟨-, hx⟩ | ⟨front', rfl, hhistory⟩
  · rw [cons.injEq] at hx
    rw [hx.1]
    exact hw.path i hi
  · have hx : x ∈ history := hhistory ▸ mem_append_right front' mem_cons_self
    rw [hw.other i hi x (hleaf x hx) (hfront w mem_cons_self).symm]
    exact h front' x back hhistory i hi (fun w' hw' => hfront w' (mem_cons_of_mem w hw'))

/-- Some use since the last one of `v` turned off the path of `v` at height `i`. -/
theorem Records.turned_off (h : Records L dir history) (hv : Away L dir v) {front back : List ℕ}
    (heq : history = front ++ v :: back) {i : ℕ} (hi : i < L) :
    ∃ w ∈ front, w >>> (i + 1) = v >>> (i + 1) ∧ w.testBit i ≠ v.testBit i := by
  cases hfind : front.find? (fun w => w >>> (i + 1) = v >>> (i + 1)) with
  | none =>
    have hno := h front v back heq i hi
      (fun w hw => of_decide_eq_false (by simpa using find?_eq_none.1 hfind w hw))
    have haway := hv i hi
    rw [hno] at haway
    exact ((Bool.eq_not_self _).1 haway).elim
  | some w =>
    -- the last such use has left its mark
    obtain ⟨hsame, f, b, hsplit, hbefore⟩ := find?_eq_some_iff_append.1 hfind
    rw [decide_eq_true_eq] at hsame
    refine ⟨w, mem_of_find?_eq_some hfind, hsame, ?_⟩
    have hmark := h f w (b ++ v :: back) (by rw [heq, hsplit]; simp) i hi
      (fun w' hw' => by have hno := hbefore w' hw'; simp at hno; rwa [hsame])
    rw [hv i hi, ← hmark, hsame]
    exact (Bool.eq_not_self _).1

/-- **A leaf away from the last uses is not among the last `L`.** -/
theorem Records.not_amongLast (h : Records L dir history) (hv : Away L dir v) :
    ¬ AmongLast L history v := by
  rintro ⟨front, back, heq, hlt⟩
  have hoff : ∀ i, ∃ w, i < L → w ∈ front ∧ w >>> (i + 1) = v >>> (i + 1)
      ∧ w.testBit i ≠ v.testBit i := by
    intro i
    by_cases hi : i < L
    · obtain ⟨w, hw⟩ := h.turned_off hv heq hi
      exact ⟨w, fun _ => hw⟩
    · exact ⟨0, fun hlt => absurd hlt hi⟩
  choose f hf using hoff
  -- a leaf that turns off at height `i` follows the path of `v` above it
  have hne : ∀ i k, i < k → k < L → f i ≠ f k := by
    intro i k hik hk heq
    obtain ⟨-, hsame, -⟩ := hf i (hik.trans hk)
    refine (hf k hk).2.2 ?_
    have hbit := congrArg (fun x => x.testBit (k - (i + 1))) hsame
    simp only [Nat.testBit_shiftRight] at hbit
    rwa [Nat.add_sub_cancel' hik, heq] at hbit
  have hinj : Set.InjOn f (Finset.range L) := by
    intro i hi k hk hfik
    rw [Finset.coe_range, Set.mem_Iio] at hi hk
    rcases Nat.lt_trichotomy i k with hik | hik | hik
    · exact absurd hfik (hne i k hik hk)
    · exact hik
    · exact absurd hfik.symm (hne k i hik hi)
  have hcard := Finset.card_le_card_of_injOn f
    (fun i hi => mem_toFinset.2 (hf i (Finset.mem_range.1 hi)).1) hinj
  rw [Finset.card_range] at hcard
  omega

theorem testBit_top (hL : 0 < L) (hw : w < 2 ^ L) :
    w.testBit (L - 1) = true ↔ 2 ^ (L - 1) ≤ w := by
  have hhalf : w / 2 ^ (L - 1) < 2 := by
    rw [Nat.div_lt_iff_lt_mul (Nat.two_pow_pos _), ← pow_succ', Nat.sub_add_cancel hL]
    exact hw
  rw [Nat.testBit_eq_decide_div_mod_eq, decide_eq_true_eq, Nat.mod_eq_of_lt hhalf,
    ← Nat.one_le_div_iff (Nat.two_pow_pos _)]
  omega

/-- A leaf away from the last uses lies in the other half than the last one. -/
theorem Records.other_half (h : Records L dir (w :: history)) (hv : Away L dir v) (hL : 0 < L)
    (hw : w < 2 ^ L) (hvL : v < 2 ^ L) : 2 ^ (L - 1) ≤ v ↔ w < 2 ^ (L - 1) := by
  have hzero : ∀ x < 2 ^ L, x >>> (L - 1 + 1) = 0 := by
    intro x hx
    rw [Nat.sub_add_cancel hL, Nat.shiftRight_eq_div_pow, Nat.div_eq_of_lt hx]
  have hmark := h [] w history rfl (L - 1) (by omega) (fun _ hx => absurd hx not_mem_nil)
  rw [← testBit_top hL hvL, hv (L - 1) (by omega), hzero v hvL, ← hzero w hw, hmark,
    ← Nat.not_le, ← testBit_top hL hw, Bool.not_eq_true', Bool.not_eq_true]

end RecencyTree

end Bindu.Lib
