/-
`Topology::extend_shortest_path` computes shortest distances.

The loop relaxes every entry through every intermediate switch, in place, until a whole
pass changes nothing. Three facts carry the proof: every entry is always the weight of a
walk, no entry is ever above the weight of its edge, and a pass without a change is a
fixpoint. The loop comes to rest because every pass with a change lowers the sum of all
entries.
-/
import Bindu.Lib.MinPlus
import Bindu.Garnet.Topology

open Bindu.Lib List

namespace Bindu.Garnet

variable {nodes : ℕ} {w : ℕ → ℕ → ℕ}

/-! ## The loop over `k` -/

theorem relaxVia_minimum (dist : ℕ → ℕ → ℕ) (i j k : ℕ) (st : Relaxation) :
    (relaxVia dist i j st k).minimum = min st.minimum (dist i k + dist k j) := by
  unfold relaxVia
  by_cases h : st.minimum = min st.minimum (dist i k + dist k j)
  · simp [← h]
  · simp [h]

/-- What the loop over `k` has computed after a list of intermediate switches. -/
theorem foldl_relaxVia_minimum (dist : ℕ → ℕ → ℕ) (i j : ℕ) (ks : List ℕ) (st : Relaxation) :
    let m := (ks.foldl (relaxVia dist i j) st).minimum
    m ≤ st.minimum ∧ (∀ k ∈ ks, m ≤ dist i k + dist k j)
      ∧ (m = st.minimum ∨ ∃ k ∈ ks, m = dist i k + dist k j) := by
  induction ks generalizing st with
  | nil => simp
  | cons k ks ih =>
    obtain ⟨hle, hall, hor⟩ := ih (relaxVia dist i j st k)
    rw [relaxVia_minimum] at hle hor
    refine ⟨hle.trans (min_le_left _ _), ?_, ?_⟩
    · intro k' hk'
      rcases mem_cons.mp hk' with rfl | hk'
      · exact hle.trans (min_le_right _ _)
      · exact hall k' hk'
    · rcases hor with heq | ⟨k', hk', heq⟩
      · rcases min_choice st.minimum (dist i k + dist k j) with hm | hm
        · exact .inl (heq.trans hm)
        · exact .inr ⟨k, mem_cons_self .., heq.trans hm⟩
      · exact .inr ⟨k', mem_cons_of_mem _ hk', heq⟩

/-- The new value of an entry. -/
def relaxed (nodes : ℕ) (dist : ℕ → ℕ → ℕ) (inter : ℕ → ℕ → ℕ) (i j : ℕ) : ℕ :=
  ((range nodes).foldl (relaxVia dist i j) ⟨dist i j, none, inter⟩).minimum

variable (nodes) in
theorem relaxed_spec (dist : ℕ → ℕ → ℕ) (inter : ℕ → ℕ → ℕ) (i j : ℕ) :
    relaxed nodes dist inter i j ≤ dist i j
      ∧ (∀ k < nodes, relaxed nodes dist inter i j ≤ dist i k + dist k j)
      ∧ (relaxed nodes dist inter i j = dist i j
        ∨ ∃ k < nodes, relaxed nodes dist inter i j = dist i k + dist k j) := by
  have h := foldl_relaxVia_minimum dist i j (range nodes) ⟨dist i j, none, inter⟩
  simp only [mem_range] at h
  exact h

/-! ## One entry -/

variable (nodes) in
/-- One relaxation writes the relaxed value and raises the flag, or changes nothing. -/
theorem relaxEntry_cases (st : Paths × Bool) (i j : ℕ) :
    let st' := relaxEntry nodes st (i, j)
    let x := relaxed nodes st.1.current_dist st.1.inter_switches i j
    (st.1.current_dist i j ≠ x ∧ st'.2 = true
        ∧ st'.1.current_dist = setEntry st.1.current_dist i j x)
      ∨ (st.1.current_dist i j = x ∧ st'.2 = st.2 ∧ st'.1.current_dist = st.1.current_dist) := by
  simp only [relaxEntry, relaxed]
  split
  · rename_i h
    left
    split <;> exact ⟨h, rfl, rfl⟩
  · rename_i h
    right
    rw [ne_eq, not_not] at h
    exact ⟨h, rfl, rfl⟩

/-- The distances are weights of walks and not above the edges. Outside of the matrix they
are what they were. -/
structure WalkWeights (nodes : ℕ) (w dist : ℕ → ℕ → ℕ) : Prop where
  walk : ∀ i < nodes, ∀ j < nodes, Walk {k | k < nodes} w i j (dist i j)
  edge : ∀ i < nodes, ∀ j < nodes, dist i j ≤ w i j
  outside : ∀ i j, nodes ≤ i → dist i j = w i j

theorem WalkWeights.refl (nodes : ℕ) (w : ℕ → ℕ → ℕ) : WalkWeights nodes w w where
  walk i _ j _ := .edge i j
  edge _ _ _ _ := le_rfl
  outside _ _ _ := rfl

theorem WalkWeights.relaxEntry {st : Paths × Bool} (h : WalkWeights nodes w st.1.current_dist)
    {i j : ℕ} (hi : i < nodes) (hj : j < nodes) :
    WalkWeights nodes w (relaxEntry nodes st (i, j)).1.current_dist := by
  rcases relaxEntry_cases nodes st i j with ⟨-, -, heq⟩ | ⟨-, -, heq⟩
  swap
  · rw [heq]
    exact h
  obtain ⟨hle, -, hor⟩ := relaxed_spec nodes st.1.current_dist st.1.inter_switches i j
  have hwalk : Walk {k | k < nodes} w i j
      (relaxed nodes st.1.current_dist st.1.inter_switches i j) := by
    rcases hor with hx | ⟨k, hk, hx⟩
    · rw [hx]
      exact h.walk i hi j hj
    · rw [hx]
      exact (h.walk i hi k hk).append hk (h.walk k hk j hj)
  rw [heq]
  refine ⟨fun a ha b hb => ?_, fun a ha b hb => ?_, fun a b ha => ?_⟩ <;> rw [setEntry_apply]
  · split
    · rename_i hab
      rw [hab.1, hab.2]
      exact hwalk
    · exact h.walk a ha b hb
  · split
    · rename_i hab
      rw [hab.1, hab.2]
      exact hle.trans (h.edge i hi j hj)
    · exact h.edge a ha b hb
  · rw [if_neg (by omega)]
    exact h.outside a b ha

/-! ## A pass -/

theorem mem_entries {i j : ℕ} : (i, j) ∈ entries nodes ↔ i < nodes ∧ j < nodes := by
  simp [entries]

/-- The flag is never lowered, and a pass that leaves it down has found every entry it
looked at to be its own relaxed value. -/
theorem foldl_relaxEntry_false (l : List (ℕ × ℕ)) (st : Paths × Bool)
    (h : (l.foldl (relaxEntry nodes) st).2 = false) :
    st.2 = false ∧ (l.foldl (relaxEntry nodes) st).1.current_dist = st.1.current_dist
      ∧ ∀ i j, (i, j) ∈ l → ∀ k < nodes,
        st.1.current_dist i j ≤ st.1.current_dist i k + st.1.current_dist k j := by
  induction l generalizing st with
  | nil => simpa using h
  | cons ij l ih =>
    obtain ⟨i, j⟩ := ij
    obtain ⟨hflag, hdist, hall⟩ := ih _ h
    rcases relaxEntry_cases nodes st i j with ⟨-, htrue, -⟩ | ⟨hx, hst, heq⟩
    · rw [htrue] at hflag
      simp at hflag
    · refine ⟨hst ▸ hflag, hdist.trans heq, ?_⟩
      intro i' j' hmem k hk
      rcases mem_cons.mp hmem with heqij | hmem
      · simp only [Prod.mk.injEq] at heqij
        rw [heqij.1, heqij.2]
        exact hx.le.trans ((relaxed_spec nodes st.1.current_dist st.1.inter_switches i j).2.1 k hk)
      · have := hall i' j' hmem k hk
        rwa [heq] at this

theorem WalkWeights.foldl {l : List (ℕ × ℕ)} (hl : ∀ ij ∈ l, ij.1 < nodes ∧ ij.2 < nodes)
    {st : Paths × Bool} (h : WalkWeights nodes w st.1.current_dist) :
    WalkWeights nodes w (l.foldl (Garnet.relaxEntry nodes) st).1.current_dist := by
  induction l generalizing st with
  | nil => exact h
  | cons ij l ih =>
    obtain ⟨hi, hj⟩ := hl ij (mem_cons_self ..)
    exact ih (fun x hx => hl x (mem_cons_of_mem _ hx)) (h.relaxEntry hi hj)

theorem WalkWeights.extend_pass {p : Paths} (h : WalkWeights nodes w p.current_dist) :
    WalkWeights nodes w (extend_pass nodes p).1.current_dist :=
  WalkWeights.foldl (fun ij hij => mem_entries.mp (by exact hij)) h

/-- A pass without a change has found the shortest distances. -/
theorem isShortest_of_extend_pass {p : Paths} (h : WalkWeights nodes w p.current_dist)
    (hc : (extend_pass nodes p).2 = false) :
    IsShortest {k | k < nodes} w (extend_pass nodes p).1.current_dist := by
  obtain ⟨-, hdist, hall⟩ := foldl_relaxEntry_false (entries nodes) (p, false) hc
  unfold Garnet.extend_pass
  rw [hdist]
  exact IsShortest.of_fixpoint h.walk h.edge
    (fun i hi k hk j hj => hall i j (mem_entries.mpr ⟨hi, hj⟩) k hk)

/-! ## The `while` loop comes to rest -/

/-- Writing a smaller value lowers the sum of a list of entries that contains it. -/
theorem sum_setEntry_le (l : List (ℕ × ℕ)) (dist : ℕ → ℕ → ℕ) (i j x : ℕ) (hx : x ≤ dist i j) :
    (l.map (fun ij => setEntry dist i j x ij.1 ij.2)).sum
      ≤ (l.map (fun ij => dist ij.1 ij.2)).sum := by
  refine sum_le_sum (fun ij _ => ?_)
  rw [setEntry_apply]
  split
  · rename_i h
    rw [h.1, h.2]
    exact hx
  · exact le_rfl

theorem sum_setEntry_lt {l : List (ℕ × ℕ)} {i j : ℕ} (hmem : (i, j) ∈ l) (dist : ℕ → ℕ → ℕ)
    (x : ℕ) (hx : x < dist i j) :
    (l.map (fun ij => setEntry dist i j x ij.1 ij.2)).sum
      < (l.map (fun ij => dist ij.1 ij.2)).sum := by
  obtain ⟨l1, l2, rfl⟩ := append_of_mem hmem
  have h1 := sum_setEntry_le l1 dist i j x hx.le
  have h2 := sum_setEntry_le l2 dist i j x hx.le
  have hij : setEntry dist i j x i j = x := by rw [setEntry_apply]; simp
  simp only [map_append, map_cons, sum_append, sum_cons, hij]
  omega

theorem foldl_relaxEntry_total (l : List (ℕ × ℕ)) (hl : ∀ ij ∈ l, ij ∈ entries nodes)
    (st : Paths × Bool) :
    let st' := l.foldl (relaxEntry nodes) st
    totalDist nodes st'.1.current_dist ≤ totalDist nodes st.1.current_dist
      ∧ (st.2 = false → st'.2 = true →
        totalDist nodes st'.1.current_dist < totalDist nodes st.1.current_dist) := by
  induction l generalizing st with
  | nil => simp
  | cons ij l ih =>
    obtain ⟨i, j⟩ := ij
    obtain ⟨hle, hlt⟩ := ih (fun x hx => hl x (mem_cons_of_mem _ hx)) (relaxEntry nodes st (i, j))
    rcases relaxEntry_cases nodes st i j with ⟨hne, -, heq⟩ | ⟨-, hst, heq⟩
    · have hx := (relaxed_spec nodes st.1.current_dist st.1.inter_switches i j).1
      have hdrop : totalDist nodes (relaxEntry nodes st (i, j)).1.current_dist
          < totalDist nodes st.1.current_dist := by
        rw [heq]
        exact sum_setEntry_lt (hl (i, j) (mem_cons_self ..)) _ _ (lt_of_le_of_ne hx (Ne.symm hne))
      exact ⟨hle.trans hdrop.le, fun _ _ => lt_of_le_of_lt hle hdrop⟩
    · rw [heq] at hle hlt
      rw [hst] at hlt
      exact ⟨hle, hlt⟩

/-- **`extend_shortest_path` returns shortest distances.** With more fuel than the sum of
the entries it comes to rest, and what it returns is shortest. -/
theorem extend_shortest_path_isShortest (fuel : ℕ) (p : Paths)
    (h : WalkWeights nodes w p.current_dist) (hfuel : totalDist nodes p.current_dist < fuel) :
    ∃ q, extend_shortest_path nodes fuel p = some q ∧ IsShortest {k | k < nodes} w q.current_dist
      ∧ WalkWeights nodes w q.current_dist := by
  induction fuel generalizing p with
  | zero => omega
  | succ fuel ih =>
    unfold extend_shortest_path
    cases hc : (extend_pass nodes p).2 with
    | false =>
      refine ⟨(extend_pass nodes p).1, ?_, isShortest_of_extend_pass h hc, h.extend_pass⟩
      simp [hc]
    | true =>
      have hdrop := (foldl_relaxEntry_total (entries nodes) (fun _ h => h) (p, false)).2
        rfl hc
      obtain ⟨q, hq, hs⟩ := ih (extend_pass nodes p).1 h.extend_pass
        (lt_of_lt_of_le hdrop (Nat.lt_succ_iff.mp hfuel))
      exact ⟨q, by simpa [hc] using hq, hs⟩

/-- **`dist` of `createLinks` is the shortest distance** between any two switches. -/
theorem Topology.dist_spec (T : Topology) :
    IsShortest {k | k < T.num_switches} T.topology_weights T.dist
      ∧ WalkWeights T.num_switches T.topology_weights T.dist := by
  obtain ⟨q, hq, hs⟩ := extend_shortest_path_isShortest
    (totalDist T.num_switches T.topology_weights + 1)
    ⟨T.topology_weights, T.component_latencies, fun _ _ => 0⟩
    (WalkWeights.refl T.num_switches T.topology_weights) (Nat.lt_succ_self _)
  unfold Topology.dist
  simp only [hq, Option.getD_some]
  exact hs

end Bindu.Garnet
