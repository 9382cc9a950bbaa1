/-
Timing rules between commands, and the scoreboard that enforces them.

A device takes commands, and a command keeps later commands of some classes away for some
time. A controller does not remember every command it has issued: for every class it keeps
one time, before which no command of the class may be issued, and raises these times with
every command. `Covers` says that the times are late enough for everything issued so far.
As long as they are, and as long as no command is issued before the time of its class, any two
commands of the trace respect every rule between them (`Spaced`), however many commands lie
between the two and whatever the order of their times is.

The second half is about a limit on how many commands fall into a window of time. The
controller remembers the last `X` times in a queue that starts out filled with zeros.
-/
import Mathlib.Tactic

namespace Bindu.Lib

open List

variable {C K : Type}

/-- Commands of type `C` with the time at which they are issued and the class `K` they belong
to; `need c k n` is a rule: a command of class `k` issued after `c` is at least `n` later. -/
structure TimingRules (C K : Type) where
  time : C → ℕ
  slot : C → K
  need : C → K → ℕ → Prop

namespace TimingRules

variable (R : TimingRules C K)

/-- Every two commands of the trace respect the rules. -/
def Spaced (trace : List C) : Prop :=
  trace.Pairwise (fun c d => ∀ n, R.need c (R.slot d) n → R.time c + n ≤ R.time d)

/-- The times of the scoreboard are late enough for the commands issued so far. -/
def Covers (allowed : K → ℕ) (trace : List C) : Prop :=
  ∀ c ∈ trace, ∀ k n, R.need c k n → R.time c + n ≤ allowed k

variable {R} {allowed allowed' : K → ℕ} {trace : List C} {d : C}

theorem Spaced.nil : R.Spaced [] := Pairwise.nil

theorem Covers.nil : R.Covers allowed [] := by
  intro c hc
  cases hc

theorem Covers.mono (h : R.Covers allowed trace) (hle : ∀ k, allowed k ≤ allowed' k) :
    R.Covers allowed' trace := by
  intro c hc k n hn
  exact (h c hc k n hn).trans (hle k)

/-- A command that waits for the time of its class respects every earlier command. -/
theorem Spaced.issue (h : R.Spaced trace) (hc : R.Covers allowed trace)
    (hd : allowed (R.slot d) ≤ R.time d) : R.Spaced (trace ++ [d]) := by
  rw [Spaced, pairwise_append]
  refine ⟨h, pairwise_singleton _ _, ?_⟩
  intro c hmem e he n hn
  rw [mem_singleton] at he
  subst he
  exact (hc c hmem _ n hn).trans hd

/-- The scoreboard after a command: no time gets earlier, and every rule of the new command
is taken into account. -/
theorem Covers.issue (h : R.Covers allowed trace) (hle : ∀ k, allowed k ≤ allowed' k)
    (hd : ∀ k n, R.need d k n → R.time d + n ≤ allowed' k) : R.Covers allowed' (trace ++ [d]) := by
  intro c hc
  rcases mem_append.mp hc with hc | hc
  · exact h.mono hle c hc
  · rw [mem_singleton] at hc
    subst hc
    exact hd

end TimingRules

/-! ## At most so many in a window -/

/-- The last `X` times, the newest first, filled up with zeros. -/
def recent (X : ℕ) (ts : List ℕ) : List ℕ :=
  (ts.reverse ++ replicate X 0).take X

/-- Any `X + 1` times that follow each other span at least `W`. -/
def Sparse (X W : ℕ) (ts : List ℕ) : Prop :=
  ∀ i a b, ts[i]? = some a → ts[i + X]? = some b → a + W ≤ b

theorem recent_nil (X : ℕ) : recent X [] = replicate X 0 := by
  simp [recent]

theorem length_recent (X : ℕ) (ts : List ℕ) : (recent X ts).length = X := by
  simp [recent]

theorem recent_concat {X : ℕ} (hX : 0 < X) (ts : List ℕ) (t : ℕ) :
    recent X (ts ++ [t]) = t :: (recent X ts).dropLast := by
  obtain ⟨Y, rfl⟩ := Nat.exists_eq_succ_of_ne_zero hX.ne'
  rw [dropLast_eq_take, length_recent, recent, recent, reverse_append,
    reverse_singleton, append_assoc, singleton_append, take_succ_cons,
    take_take]
  rw [Nat.succ_eq_add_one, Nat.add_sub_cancel, Nat.min_eq_left (Nat.le_succ Y)]

/-- The oldest of the last `X` times, once there are that many. -/
theorem getLast?_recent {X i a : ℕ} {ts : List ℕ} (hX : 0 < X) (hi : i + X = ts.length)
    (ha : ts[i]? = some a) : (recent X ts).getLast? = some a := by
  have hlen : (ts.reverse).length = ts.length := length_reverse
  rw [getLast?_eq_getElem?, length_recent, recent, getElem?_take_of_lt (by omega),
    getElem?_append_left (by omega), getElem?_reverse (by omega)]
  rw [show ts.length - 1 - (X - 1) = i by omega]
  exact ha

/-- One more time, late enough after the oldest of the last `X` of them. -/
theorem Sparse.concat {X W t : ℕ} {ts : List ℕ} (h : Sparse X W ts) (hX : 0 < X)
    (ht : ∀ a, (recent X ts).getLast? = some a → a ∈ ts → a + W ≤ t) : Sparse X W (ts ++ [t]) := by
  intro i a b ha hb
  have hbound := (List.getElem?_eq_some_iff.mp hb).1
  rw [List.length_append, List.length_singleton] at hbound
  rw [List.getElem?_append_left (by omega)] at ha
  by_cases hnew : i + X < ts.length
  · rw [getElem?_append_left hnew] at hb
    exact h i a b ha hb
  · -- the later of the two is the new time
    have hlast : i + X = ts.length := by omega
    rw [hlast, getElem?_concat_length, Option.some.injEq] at hb
    rw [← hb]
    exact ht a (getLast?_recent hX hlast ha) (mem_of_getElem? ha)

end Bindu.Lib
