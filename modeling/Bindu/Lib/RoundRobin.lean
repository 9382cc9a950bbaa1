/-
Round robin: walk the numbers below `n` from a pointer on, going round, and put the pointer
behind the one that was taken.

`ahead start p n` is how far `p` is from the pointer. A number that is passed over for one nearer
to the pointer is nearer to the next pointer than it was to the last, and it starts less than `n`
away. So the distance is what bounds how often a number can be passed over.
-/
import Mathlib.Tactic

namespace Bindu.Lib

open List Nat

variable {β : Type} {start p q w n k : ℕ}

/-- The number of steps from `start` to `p` going round below `n`. -/
def ahead (start p n : ℕ) : ℕ := (p + n - start % n) % n

theorem ahead_lt (start : ℕ) (hp : p < n) : ahead start p n < n := mod_lt _ (zero_lt_of_lt hp)

theorem ahead_of_le (hp : p < n) (h : start % n ≤ p) : ahead start p n = p - start % n := by
  have hsum : p + n - start % n = p - start % n + n := by omega
  unfold ahead
  rw [hsum, add_mod_right]
  exact mod_eq_of_lt (by omega)

theorem ahead_of_lt (hp : p < n) (h : p < start % n) : ahead start p n = p + n - start % n :=
  mod_eq_of_lt (by omega)

theorem add_ahead_mod (start : ℕ) (hp : p < n) : (start + ahead start p n) % n = p := by
  have hstart : start % n < n := mod_lt _ (zero_lt_of_lt hp)
  rw [Nat.add_mod, Nat.mod_eq_of_lt (ahead_lt start hp)]
  rcases le_or_gt (start % n) p with h | h
  · rw [ahead_of_le hp h, Nat.add_sub_cancel' h]
    exact Nat.mod_eq_of_lt hp
  · have hsum : start % n + (p + n - start % n) = p + n := by omega
    rw [ahead_of_lt hp h, hsum, Nat.add_mod_right]
    exact mod_eq_of_lt hp

/-- The number `k` steps from the pointer is `k` away. -/
theorem ahead_add_mod (hk : k < n) : ahead start ((start + k) % n) n = k := by
  have hn : 0 < n := zero_lt_of_lt hk
  have h := add_ahead_mod start (mod_lt (start + k) hn)
  have hlt := ahead_lt start (mod_lt (start + k) hn)
  exact ModEq.eq_of_lt_of_lt (ModEq.add_left_cancel' start h) hlt hk

/-- **A number passed over comes nearer.** The pointer moves behind `w`, which was no further
than `p`. -/
theorem ahead_next_lt (hw : w < n) (hp : p < n) (hne : w ≠ p)
    (hle : ahead start w n ≤ ahead start p n) : ahead (w + 1) p n < ahead start p n := by
  have hstart : start % n < n := mod_lt _ (zero_lt_of_lt hp)
  have hbetween : start % n ≤ w ∧ (w < p ∨ p < start % n) ∨ w < p ∧ p < start % n := by
    rcases le_or_gt (start % n) w with h | h <;> rcases le_or_gt (start % n) p with h' | h'
    · rw [ahead_of_le hw h, ahead_of_le hp h'] at hle
      omega
    · omega
    · rw [ahead_of_lt hw h, ahead_of_le hp h'] at hle
      omega
    · rw [ahead_of_lt hw h, ahead_of_lt hp h'] at hle
      omega
  rcases lt_or_ge (w + 1) n with hnext | hnext
  · have hmod : (w + 1) % n = w + 1 := mod_eq_of_lt hnext
    rcases le_or_gt (start % n) p with h' | h' <;> rcases le_or_gt (w + 1) p with h | h
    · rw [ahead_of_le hp (by rw [hmod]; exact h), ahead_of_le hp h', hmod]
      omega
    · omega
    · rw [ahead_of_le hp (by rw [hmod]; exact h), ahead_of_lt hp h', hmod]
      omega
    · rw [ahead_of_lt hp (by rw [hmod]; exact h), ahead_of_lt hp h', hmod]
      omega
  · -- the pointer wraps around
    have hlast : w + 1 = n := by omega
    have hmod : (w + 1) % n = 0 := by rw [hlast, mod_self]
    rw [ahead_of_le hp (by rw [hmod]; exact zero_le p), ahead_of_lt hp (by omega), hmod]
    omega

/-- What a search in round-robin order finds: the nearest number with an answer. -/
theorem findSome_roundRobin {f : ℕ → Option β} {b : β}
    (h : ((range n).map (fun k => (start + k) % n)).findSome? f = some b) :
    ∃ w < n, f w = some b ∧ ∀ q < n, ahead start q n < ahead start w n → f q = none := by
  obtain ⟨l1, w, l2, hl, hfw, hbefore⟩ := findSome?_eq_some_iff.mp h
  have hlen : l1.length < n := by
    have hlength := congrArg length hl
    simp only [length_map, length_range, length_append, length_cons] at hlength
    omega
  -- element `j` of the list is the number `j` steps from the pointer
  have hget : ∀ j < n, (l1 ++ w :: l2)[j]? = some ((start + j) % n) := by
    intro j hj
    rw [← hl, getElem?_map, getElem?_range hj]
    rfl
  have hw : w = (start + l1.length) % n := by
    have h' := hget _ hlen
    rw [getElem?_append_right le_rfl, Nat.sub_self] at h'
    exact Option.some.inj h'
  have hahead : ahead start w n = l1.length := by rw [hw, ahead_add_mod hlen]
  refine ⟨w, hw ▸ Nat.mod_lt _ (Nat.zero_lt_of_lt hlen), hfw, ?_⟩
  intro q hq hlt
  rw [hahead] at hlt
  have hqget := hget _ (ahead_lt start hq)
  rw [add_ahead_mod start hq, getElem?_append_left hlt] at hqget
  exact hbefore q (mem_of_getElem? hqget)

/-- A search in round-robin order finds something if any number has an answer. -/
theorem exists_findSome_roundRobin {f : ℕ → Option β} (hp : p < n) (hf : f p ≠ none) (start : ℕ) :
    ∃ b, ((range n).map (fun k => (start + k) % n)).findSome? f = some b := by
  rw [← Option.isSome_iff_exists, findSome?_isSome_iff]
  refine ⟨p, ?_, Option.isSome_iff_ne_none.mpr hf⟩
  exact mem_map.mpr ⟨ahead start p n, mem_range.mpr (ahead_lt start hp), add_ahead_mod start hp⟩

end Bindu.Lib
