/-
`Topology::extend_shortest_path` keeps three matrices that describe one path.

Besides the distances the loop updates latencies and numbers of intermediate switches, in
place, from rows that may change again in the same sweep. The invariant is that for every
pair with a distance below `INFINITE_LATENCY` there is one path of links with that weight,
that latency and that number of intermediate switches. It survives a relaxation because
the two halves are such paths at the moment the entry is written, and because a relaxation
through one of the two ends never improves the entry.

Weights are natural numbers here; the source has `int`, so a sum of two weights is meant to
be below 2 ^ 31.

Source: `Topology::extend_shortest_path`, `Topology::shortest_path`.
-/
import Mathlib.Data.ENat.Lattice
import Bindu.Garnet.ShortestPath

open Bindu.Lib

namespace Bindu.Garnet

/-! ## Links and paths -/

/-- The links between switches: the weight and the latency of the link from `i` to `j`. -/
structure LinkMatrix where
  link : ℕ → ℕ → Option (ℕ × ℤ)
  weight_pos : ∀ i j w lat, link i j = some (w, lat) → 0 < w
  no_loop : ∀ i, link i i = none

namespace LinkMatrix

variable (L : LinkMatrix)

/-- The weights `extend_shortest_path` starts with. -/
def weights (i j : ℕ) : ℕ :=
  match L.link i j with
  | some (w, _) => w
  | none => if i = j then 0 else INFINITE_LATENCY

/-- The latencies it starts with. -/
def latencies (i j : ℕ) : ℤ :=
  match L.link i j with
  | some (_, lat) => lat
  | none => -1

/-- The three matrices before the first pass. -/
def start : Paths := ⟨L.weights, L.latencies, fun _ _ => 0⟩

/-- `L.LinkPath nodes i j w lat n`: a path of links from `i` to `j` has total weight `w` and
total latency `lat` and passes through `n` switches in between. -/
inductive LinkPath (nodes : ℕ) : ℕ → ℕ → ℕ → ℤ → ℕ → Prop
  | link {i j w : ℕ} {lat : ℤ} : L.link i j = some (w, lat) → LinkPath nodes i j w lat 0
  | step {i k j w w' n : ℕ} {lat lat' : ℤ} : L.link i k = some (w, lat) → k < nodes →
      LinkPath nodes k j w' lat' n → LinkPath nodes i j (w + w') (lat + lat') (n + 1)

/-- The weight of a lightest path, infinite if there is none. -/
noncomputable def lightest (nodes i j : ℕ) : ℕ∞ :=
  if i = j then 0 else sInf {x | ∃ w lat n, L.LinkPath nodes i j w lat n ∧ x = w}

variable {L} {nodes : ℕ}

theorem LinkPath.append {i k j w w' n n' : ℕ} {lat lat' : ℤ}
    (h : L.LinkPath nodes i k w lat n) (hk : k < nodes) (h' : L.LinkPath nodes k j w' lat' n') :
    L.LinkPath nodes i j (w + w') (lat + lat') (n + n' + 1) := by
  induction h with
  | link hl =>
    rw [Nat.zero_add]
    exact .step hl hk h'
  | @step i l k w w1 n lat lat1 hl hlt _ ih =>
    rw [Nat.add_assoc, add_assoc, show n + 1 + n' + 1 = (n + n' + 1) + 1 by omega]
    exact .step hl hlt (ih hk h')

/-- A path is a walk in the matrix of weights. -/
theorem LinkPath.walk {i j w n : ℕ} {lat : ℤ} (h : L.LinkPath nodes i j w lat n) :
    Walk {k | k < nodes} L.weights i j w := by
  have hweight : ∀ {i j w lat}, L.link i j = some (w, lat) → L.weights i j = w := by
    intro i j w lat hl
    simp only [weights, hl]
  induction h with
  | link hl =>
    rw [← hweight hl]
    exact .edge _ _
  | step hl hk _ ih =>
    rw [← hweight hl]
    exact .step _ _ _ _ hk ih

theorem weights_self (i : ℕ) : L.weights i i = 0 := by
  simp only [weights, L.no_loop, if_true]

end LinkMatrix

/-! ## One relaxation -/

variable {L : LinkMatrix} {nodes : ℕ}

/-- What the loop over `k` leaves behind: nothing has changed, or the last improvement was
through switch `k`, neither of the two ends. Only entry `(i, j)` of the numbers of
intermediate switches is written. -/
theorem foldl_relaxVia_cases {dist : ℕ → ℕ → ℕ} {i j : ℕ} (hi : dist i i = 0)
    (hj : dist j j = 0) (inter : ℕ → ℕ → ℕ) (ks : List ℕ) (st : Relaxation)
    (hmin : st.minimum ≤ dist i j)
    (hinter : ∀ a b, (a, b) ≠ (i, j) → st.inter_switches a b = inter a b) :
    let r := ks.foldl (relaxVia dist i j) st
    r = st ∨ ∃ k ∈ ks, k ≠ i ∧ k ≠ j ∧ r.minimum = dist i k + dist k j
      ∧ r.minimum < dist i j ∧ r.intermediate_switch = some k
      ∧ r.inter_switches i j = inter i k + inter k j + 1
      ∧ ∀ a b, (a, b) ≠ (i, j) → r.inter_switches a b = inter a b := by
  induction ks generalizing st with
  | nil => exact .inl rfl
  | cons k ks ih =>
    simp only [List.foldl_cons]
    by_cases himp : st.minimum ≤ dist i k + dist k j
    · -- no improvement through `k`
      have hsame : relaxVia dist i j st k = st := by
        rw [relaxVia, if_neg (by rw [min_eq_left himp]; simp)]
      rw [hsame]
      rcases ih st hmin hinter with heq | ⟨k', hk', h⟩
      · exact .inl heq
      · exact .inr ⟨k', List.mem_cons_of_mem _ hk', h⟩
    · rw [not_le] at himp
      have hki : k ≠ i := by
        rintro rfl
        omega
      have hkj : k ≠ j := by
        rintro rfl
        omega
      have hnew : relaxVia dist i j st k = ⟨dist i k + dist k j, some k,
          setEntry st.inter_switches i j (inter i k + inter k j + 1)⟩ := by
        rw [relaxVia, min_eq_right himp.le, if_pos (by omega),
          hinter i k (by simp [hkj]), hinter k j (by simp [hki])]
      have hother : ∀ a b, (a, b) ≠ (i, j) →
          (relaxVia dist i j st k).inter_switches a b = inter a b := by
        intro a b hab
        rw [hnew]
        simp only
        rw [setEntry_apply, if_neg (by simpa using hab)]
        exact hinter a b hab
      have hlt : (relaxVia dist i j st k).minimum < dist i j := by
        rw [hnew]
        exact himp.trans_le hmin
      rcases ih (relaxVia dist i j st k) hlt.le hother with heq | ⟨k', hk', h⟩
      · refine .inr ⟨k, List.mem_cons_self .., hki, hkj, ?_, ?_, ?_, ?_, ?_⟩
        · rw [heq, hnew]
        · rw [heq]
          exact hlt
        · rw [heq, hnew]
        · rw [heq, hnew]
          simp only [setEntry_apply, and_self, if_true]
        · rw [heq]
          exact hother
      · exact .inr ⟨k', List.mem_cons_of_mem _ hk', h⟩

/-- The three matrices describe paths. -/
structure Labelled (L : LinkMatrix) (nodes : ℕ) (p : Paths) : Prop where
  self : ∀ i < nodes, p.current_dist i i = 0
  path : ∀ i < nodes, ∀ j < nodes, i ≠ j → p.current_dist i j < INFINITE_LATENCY →
    L.LinkPath nodes i j (p.current_dist i j) (p.latencies i j) (p.inter_switches i j)

theorem Labelled.start (L : LinkMatrix) (nodes : ℕ) : Labelled L nodes L.start where
  self i _ := L.weights_self i
  path i _ j _ hij hlt := by
    simp only [LinkMatrix.start, LinkMatrix.weights, LinkMatrix.latencies] at hlt ⊢
    cases hl : L.link i j with
    | none =>
      rw [hl] at hlt
      simp [hij] at hlt
    | some wl => exact .link hl

/-- **One relaxation keeps the three matrices in step.** -/
theorem Labelled.relaxEntry {st : Paths × Bool} (h : Labelled L nodes st.1) {i j : ℕ}
    (hi : i < nodes) (hj : j < nodes) :
    Labelled L nodes (relaxEntry nodes st (i, j)).1 := by
  have hcases := foldl_relaxVia_cases (h.self i hi) (h.self j hj) st.1.inter_switches
    (List.range nodes) ⟨st.1.current_dist i j, none, st.1.inter_switches⟩ le_rfl
    (fun _ _ _ => rfl)
  simp only [Garnet.relaxEntry]
  rcases hcases with heq | ⟨k, hk, hki, hkj, hmin, hlt, hsw, hinter, hother⟩
  · rw [heq]
    simp only [ne_eq, not_true_eq_false, if_false]
    exact h
  rw [if_pos (by omega), hsw]
  rw [List.mem_range] at hk
  refine ⟨fun a ha => ?_, fun a ha b hb hab hfin => ?_⟩
  · simp only [setEntry_apply]
    split_ifs with haa
    · -- a zero on the diagonal is never improved
      obtain ⟨rfl, rfl⟩ := haa
      have := h.self a ha
      omega
    · exact h.self a ha
  · simp only [setEntry_apply] at hfin ⊢
    by_cases hentry : a = i ∧ b = j
    · obtain ⟨rfl, rfl⟩ := hentry
      rw [if_pos ⟨rfl, rfl⟩] at hfin
      rw [if_pos ⟨rfl, rfl⟩, if_pos ⟨rfl, rfl⟩, hinter, hmin]
      exact (h.path a ha k hk (Ne.symm hki) (by omega)).append hk (h.path k hk b hb hkj (by omega))
    · rw [if_neg hentry] at hfin
      rw [if_neg hentry, if_neg hentry, hother a b (by simpa using hentry)]
      exact h.path a ha b hb hab hfin

theorem Labelled.extend_pass {p : Paths} (h : Labelled L nodes p) :
    Labelled L nodes (extend_pass nodes p).1 := by
  have key : ∀ (l : List (ℕ × ℕ)), (∀ ij ∈ l, ij.1 < nodes ∧ ij.2 < nodes) →
      ∀ st : Paths × Bool, Labelled L nodes st.1 →
        Labelled L nodes (l.foldl (Garnet.relaxEntry nodes) st).1 := by
    intro l
    induction l with
    | nil => exact fun _ st hst => hst
    | cons ij l ih =>
      intro hl st hst
      obtain ⟨hi, hj⟩ := hl ij (List.mem_cons_self ..)
      exact ih (fun x hx => hl x (List.mem_cons_of_mem _ hx)) _ (hst.relaxEntry hi hj)
  exact key (entries nodes) (fun ij hij => mem_entries.mp hij) (p, false) h

/-! ## The loop -/

theorem extend_shortest_path_mono {fuel fuel' : ℕ} {p q : Paths}
    (h : extend_shortest_path nodes fuel p = some q) (hle : fuel ≤ fuel') :
    extend_shortest_path nodes fuel' p = some q := by
  induction fuel generalizing fuel' p with
  | zero => exact absurd h (by simp [extend_shortest_path])
  | succ fuel ih =>
    obtain ⟨fuel', rfl⟩ : ∃ k, fuel' = k + 1 := ⟨fuel' - 1, by omega⟩
    simp only [extend_shortest_path] at h ⊢
    split_ifs at h ⊢ with hc
    · exact ih h (by omega)
    · exact h

theorem Labelled.extend_shortest_path {fuel : ℕ} {p q : Paths} (hp : Labelled L nodes p)
    (h : extend_shortest_path nodes fuel p = some q) : Labelled L nodes q := by
  induction fuel generalizing p with
  | zero => exact absurd h (by simp [Garnet.extend_shortest_path])
  | succ fuel ih =>
    simp only [Garnet.extend_shortest_path] at h
    split_ifs at h with hc
    · exact ih hp.extend_pass h
    · rw [← Option.some.inj h]
      exact hp.extend_pass

/-- The distances agree with the weights of lightest paths below `INFINITE_LATENCY`. -/
theorem min_current_dist_eq {q : Paths} (hlab : Labelled L nodes q)
    (hshort : IsShortest {k | k < nodes} L.weights q.current_dist) {i j : ℕ} (hi : i < nodes)
    (hj : j < nodes) :
    min (INFINITE_LATENCY : ℕ∞) (q.current_dist i j)
      = min (INFINITE_LATENCY : ℕ∞) (L.lightest nodes i j) := by
  by_cases hij : i = j
  · subst hij
    rw [hlab.self i hi, LinkMatrix.lightest, if_pos rfl, Nat.cast_zero]
  rw [LinkMatrix.lightest, if_neg hij]
  set paths : Set ℕ∞ := {x | ∃ w lat n, L.LinkPath nodes i j w lat n ∧ x = w}
  -- the distance is a lower bound of all paths
  have hlower : (q.current_dist i j : ℕ∞) ≤ sInf paths := by
    refine le_sInf ?_
    rintro x ⟨w, lat, n, hpath, rfl⟩
    exact_mod_cast hshort.le i hi j hj w hpath.walk
  by_cases hfin : q.current_dist i j < INFINITE_LATENCY
  · -- and it is the weight of one
    have hupper : sInf paths ≤ (q.current_dist i j : ℕ∞) :=
      sInf_le ⟨_, _, _, hlab.path i hi j hj hij hfin, rfl⟩
    rw [le_antisymm hlower hupper]
  · have hge : (INFINITE_LATENCY : ℕ∞) ≤ q.current_dist i j := by exact_mod_cast not_lt.mp hfin
    rw [min_eq_left hge, min_eq_left (hge.trans hlower)]

/-- Two switches with one link from the first to the second. -/
def LinkMatrix.oneLink (w : ℕ) (hw : 0 < w) : LinkMatrix where
  link i j := if i = 0 ∧ j = 1 then some (w, 1) else none
  weight_pos := by
    intro i j w' lat h
    split_ifs at h
    cases h
    exact hw
  no_loop := by
    intro i
    rw [if_neg (by omega)]

end Bindu.Garnet
