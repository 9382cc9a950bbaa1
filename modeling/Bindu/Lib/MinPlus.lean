/-
Shortest walks in a weighted directed graph.

The graph is a weight `w i j` for every pair of vertices of a set `S`; a missing edge is
one with a large weight, so nothing here asks whether an edge exists. Walks have at least
one edge. `IsShortest S w d` says that `d i j` is the least weight of a walk from `i` to
`j`, and the lemmas are the ones an all-pairs algorithm and a next-hop table need:

* a matrix of walk weights that no longer improves is shortest (`IsShortest.of_fixpoint`);
* a shortest distance is reached through a first edge (`IsShortest.exists_next`);
* a function that no edge can lower by more than its weight bounds every walk from below
  (`Walk.potential_le`).
-/
import Mathlib.Tactic

namespace Bindu.Lib

variable {V : Type} {S : Set V} {w d : V → V → ℕ}

/-- `Walk S w i j c`: there is a walk of weight `c` from `i` to `j` with at least one edge,
whose inner vertices are in `S`. -/
inductive Walk (S : Set V) (w : V → V → ℕ) : V → V → ℕ → Prop
  | edge (i j : V) : Walk S w i j (w i j)
  | step (i k j : V) (c : ℕ) : k ∈ S → Walk S w k j c → Walk S w i j (w i k + c)

theorem Walk.append {i k j : V} {c c' : ℕ} (h : Walk S w i k c) (hk : k ∈ S)
    (h' : Walk S w k j c') : Walk S w i j (c + c') := by
  induction h with
  | edge i k => exact .step i k j c' hk h'
  | step i l k c hl _ ih =>
    rw [Nat.add_assoc]
    exact .step i l j _ hl (ih hk h')

/-- **Lower bounds.** If no edge lowers `φ` by more than its weight, a walk to `j` weighs at
least `φ` at its start. -/
theorem Walk.potential_le {φ : V → ℕ} {j : V} (hlast : ∀ i ∈ S, φ i ≤ w i j)
    (hstep : ∀ i ∈ S, ∀ k ∈ S, φ i ≤ w i k + φ k) {i : V} {c : ℕ} (hi : i ∈ S)
    (h : Walk S w i j c) : φ i ≤ c := by
  induction h with
  | edge i j => exact hlast i hi
  | step i k j c hk _ ih => exact (hstep i hi k hk).trans (Nat.add_le_add_left (ih hlast hk) _)

/-- `d i j` is the least weight of a walk from `i` to `j`. -/
structure IsShortest (S : Set V) (w d : V → V → ℕ) : Prop where
  walk : ∀ i ∈ S, ∀ j ∈ S, Walk S w i j (d i j)
  le : ∀ i ∈ S, ∀ j ∈ S, ∀ c, Walk S w i j c → d i j ≤ c

namespace IsShortest

/-- A matrix of walk weights, below the edge weights and closed under composition, is
shortest. -/
theorem of_fixpoint (hwalk : ∀ i ∈ S, ∀ j ∈ S, Walk S w i j (d i j))
    (hedge : ∀ i ∈ S, ∀ j ∈ S, d i j ≤ w i j)
    (htri : ∀ i ∈ S, ∀ k ∈ S, ∀ j ∈ S, d i j ≤ d i k + d k j) : IsShortest S w d where
  walk := hwalk
  le i hi j hj c h := by
    induction h with
    | edge i j => exact hedge i hi j hj
    | step i k j c hk _ ih =>
      calc d i j ≤ d i k + d k j := htri i hi k hk j hj
        _ ≤ w i k + c := Nat.add_le_add (hedge i hi k hk) (ih hk hj)

theorem le_edge (h : IsShortest S w d) {i j : V} (hi : i ∈ S) (hj : j ∈ S) : d i j ≤ w i j :=
  h.le i hi j hj _ (.edge i j)

theorem le_via (h : IsShortest S w d) {i k j : V} (hi : i ∈ S) (hk : k ∈ S) (hj : j ∈ S) :
    d i j ≤ w i k + d k j :=
  h.le i hi j hj _ (.step i k j _ hk (h.walk k hk j hj))

/-- A walk that leaves its start: loops at the start are skipped. -/
theorem exists_first_edge (h : IsShortest S w d) {i j : V} {c : ℕ} (hw : Walk S w i j c)
    (hi : i ∈ S) (hj : j ∈ S) (hij : i ≠ j) :
    ∃ k ∈ S, k ≠ i ∧ ((k = j ∧ w i j ≤ c) ∨ w i k + d k j ≤ c) := by
  induction hw with
  | edge i j => exact ⟨j, hj, hij.symm, .inl ⟨rfl, le_rfl⟩⟩
  | step i k j c hk hw ih =>
    by_cases hki : k = i
    · subst hki
      obtain ⟨k', hk', hne, hor⟩ := ih hi hj hij
      refine ⟨k', hk', hne, ?_⟩
      rcases hor with ⟨heq, hle⟩ | hle
      · exact .inl ⟨heq, hle.trans (Nat.le_add_left _ _)⟩
      · exact .inr (hle.trans (Nat.le_add_left _ _))
    · exact ⟨k, hk, hki, .inr (Nat.add_le_add_left (h.le k hk j hj c hw) _)⟩

/-- **Next hops exist.** A shortest distance to a vertex without a loop of positive weight is
the weight of a first edge to some other vertex plus the distance from there. -/
theorem exists_next (h : IsShortest S w d) {i j : V} (hi : i ∈ S) (hj : j ∈ S) (hij : i ≠ j)
    (hjj : d j j = 0) : ∃ k ∈ S, k ≠ i ∧ w i k + d k j = d i j := by
  obtain ⟨k, hk, hne, hor⟩ := h.exists_first_edge (h.walk i hi j hj) hi hj hij
  refine ⟨k, hk, hne, le_antisymm ?_ (h.le_via hi hk hj)⟩
  rcases hor with ⟨rfl, hle⟩ | hle
  · rw [hjj]
    exact hle
  · exact hle

end IsShortest

end Bindu.Lib
