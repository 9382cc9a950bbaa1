/-
Writes in a row.

`w k a` is what write `k` puts at address `a`, if it writes there. After the first `n` writes an
address holds what the last of them that wrote there put there, or what it held at the start.
-/
import Mathlib.Tactic

namespace Bindu.Lib

variable {A V : Type}

/-- What `a` holds after the first `n` writes. -/
def lastWrite (w : ℕ → A → Option V) (init : A → V) : ℕ → A → V
  | 0, a => init a
  | n + 1, a => (w n a).getD (lastWrite w init n a)

variable {w w' : ℕ → A → Option V} {init : A → V} {a : A}

theorem lastWrite_congr {n : ℕ} (h : ∀ k < n, w k a = w' k a) :
    lastWrite w init n a = lastWrite w' init n a := by
  induction n with
  | zero => rfl
  | succ n ih =>
    rw [lastWrite, lastWrite, h n (Nat.lt_succ_self n), ih (fun k hk => h k (Nat.lt_succ_of_lt hk))]

theorem lastWrite_comp {B : Type} {f : A → B} {u : ℕ → B → Option V} {start : B → V} {n : ℕ}
    (hinit : init a = start (f a)) (h : ∀ k < n, w k a = u k (f a)) :
    lastWrite w init n a = lastWrite u start n (f a) := by
  induction n with
  | zero => exact hinit
  | succ n ih =>
    rw [lastWrite, lastWrite, h n (Nat.lt_succ_self n), ih (fun k hk => h k (Nat.lt_succ_of_lt hk))]

theorem lastWrite_of_none {n m : ℕ} (hnm : n ≤ m) (h : ∀ k, n ≤ k → k < m → w k a = none) :
    lastWrite w init m a = lastWrite w init n a := by
  induction m, hnm using Nat.le_induction with
  | base => rfl
  | succ m hm ih =>
    rw [lastWrite, h m hm (Nat.lt_succ_self m), Option.getD_none,
      ih (fun k hk hkm => h k hk (Nat.lt_succ_of_lt hkm))]

theorem lastWrite_of_last {n m : ℕ} {v : V} (hm : m < n) (hw : w m a = some v)
    (h : ∀ k, m < k → k < n → w k a = none) : lastWrite w init n a = v := by
  rw [lastWrite_of_none hm h, lastWrite, hw, Option.getD_some]

/-- One write changes at one address, and no later one goes there. -/
theorem lastWrite_update {n m : ℕ} (hm : m < n) (hsame : ∀ k ≠ m, w' k a = w k a)
    (h : ∀ k, m < k → k < n → w k a = none) :
    lastWrite w' init n a = (w' m a).getD (lastWrite w init m a) := by
  rw [lastWrite_of_none hm
    (fun k hk hkn => by rw [hsame k (by omega)]; exact h k hk hkn), lastWrite,
    lastWrite_congr (fun k hk => hsame k (by omega))]

end Bindu.Lib
