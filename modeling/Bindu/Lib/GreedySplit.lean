/-
Sharing out a set along a list of keys.

Every key is responsible for a set of elements, its entry, and the entries may overlap. A set is
shared out greedily: each key in turn gets what is left of the set and is in its entry, and gets
no share at all if that is empty. The shares are non-empty and pairwise disjoint, each lies in
the entry of its key, and together with what is left over they make up the set. What is left over
does not depend on the order of the keys, the shares do.
-/
import Mathlib.Tactic
import Mathlib.Data.Finset.Union

namespace Bindu.Lib

open Finset

variable {ι α : Type} [DecidableEq α] (entry : ι → Finset α)

/-- The shares of the keys of a list, in the order of the list. -/
def greedySplit : List ι → Finset α → List (ι × Finset α)
  | [], _ => []
  | i :: l, d =>
    if (d ∩ entry i).Nonempty then (i, d ∩ entry i) :: greedySplit l (d \ entry i)
    else greedySplit l d

/-- What no key of the list is responsible for. -/
def leftOver (l : List ι) (d : Finset α) : Finset α := l.foldl (fun d i => d \ entry i) d

variable {entry} {l : List ι} {d : Finset α} {i : ι} {share : Finset α} {x : α}

theorem mem_leftOver : x ∈ leftOver entry l d ↔ x ∈ d ∧ ∀ i ∈ l, x ∉ entry i := by
  unfold leftOver
  induction l generalizing d with
  | nil => simp
  | cons i l ih =>
    rw [List.foldl_cons, ih, mem_sdiff, List.forall_mem_cons, and_assoc]

/-- If every element has a key that is responsible for it, nothing is left over. -/
theorem leftOver_eq_empty : leftOver entry l d = ∅ ↔ ∀ x ∈ d, ∃ i ∈ l, x ∈ entry i := by
  rw [eq_empty_iff_forall_notMem]
  constructor
  · intro h x hx
    by_contra hno
    push Not at hno
    exact h x (mem_leftOver.2 ⟨hx, hno⟩)
  · intro h x hx
    obtain ⟨hd, hno⟩ := mem_leftOver.1 hx
    obtain ⟨i, hi, hxi⟩ := h x hd
    exact hno i hi hxi

/-- A key without a share takes nothing away. -/
theorem sdiff_of_no_share (h : ¬ (d ∩ entry i).Nonempty) : d \ entry i = d := by
  rw [not_nonempty_iff_eq_empty] at h
  exact sdiff_eq_self_of_disjoint (disjoint_iff_inter_eq_empty.2 h)

/-- Later keys get their shares of the rest, which is the same rest if the first gets none. -/
theorem greedySplit_cons : greedySplit entry (i :: l) d
    = (if (d ∩ entry i).Nonempty then [(i, d ∩ entry i)] else [])
      ++ greedySplit entry l (d \ entry i) := by
  rw [greedySplit]
  split_ifs with hi
  · rfl
  · rw [sdiff_of_no_share hi, List.nil_append]

/-- The share of a key is what is left of the set when its turn comes, within its entry. -/
theorem mem_greedySplit : (i, share) ∈ greedySplit entry l d ↔
    ∃ before after, l = before ++ i :: after ∧ share = leftOver entry before d ∩ entry i
      ∧ share.Nonempty := by
  induction l generalizing d with
  | nil => simp [greedySplit]
  | cons k l ih =>
    rw [greedySplit_cons, List.mem_append, ih]
    constructor
    · rintro (hmem | ⟨before, after, rfl, hshare, hne⟩)
      · split_ifs at hmem with hk
        · obtain ⟨rfl, rfl⟩ := Prod.mk.inj (List.mem_singleton.1 hmem)
          exact ⟨[], l, rfl, rfl, hk⟩
        · cases hmem
      · exact ⟨k :: before, after, rfl, hshare, hne⟩
    · rintro ⟨before, after, hl, hshare, hne⟩
      cases before with
      | nil =>
        obtain ⟨rfl, rfl⟩ := List.cons.inj hl
        left
        have hk : share = d ∩ entry k := hshare
        rw [hk] at hne ⊢
        rw [if_pos hne]
        exact List.mem_singleton_self _
      | cons k' before =>
        obtain ⟨rfl, rfl⟩ := List.cons.inj hl
        exact .inr ⟨before, after, rfl, hshare, hne⟩

theorem greedySplit_nonempty (h : (i, share) ∈ greedySplit entry l d) : share.Nonempty := by
  obtain ⟨-, -, -, -, hne⟩ := mem_greedySplit.1 h
  exact hne

theorem greedySplit_subset_entry (h : (i, share) ∈ greedySplit entry l d) : share ⊆ entry i := by
  obtain ⟨before, after, -, rfl, -⟩ := mem_greedySplit.1 h
  exact inter_subset_right

theorem greedySplit_subset (h : (i, share) ∈ greedySplit entry l d) : share ⊆ d := by
  obtain ⟨before, after, -, rfl, -⟩ := mem_greedySplit.1 h
  exact fun x hx => (mem_leftOver.1 (mem_inter.1 hx).1).1

/-- The keys with a share, in the order of the list. -/
theorem greedySplit_keys_sublist : ((greedySplit entry l d).map Prod.fst).Sublist l := by
  fun_induction greedySplit entry l d with
  | case1 => exact List.Sublist.refl _
  | case2 i l d hi ih => exact ih.cons_cons i
  | case3 i l d hi ih => exact ih.cons i

theorem greedySplit_disjoint :
    (greedySplit entry l d).Pairwise (fun c c' => Disjoint c.2 c'.2) := by
  fun_induction greedySplit entry l d with
  | case1 => exact List.Pairwise.nil
  | case2 i l d hi ih =>
    refine List.pairwise_cons.2 ⟨fun c hc => ?_, ih⟩
    have hsub : c.2 ⊆ d \ entry i := greedySplit_subset hc
    refine disjoint_of_subset_right hsub ?_
    exact disjoint_of_subset_left inter_subset_right disjoint_sdiff
  | case3 i l d hi ih => exact ih

/-- Every element of the set is left over or in a share. -/
theorem mem_iff_leftOver_or_share :
    x ∈ d ↔ x ∈ leftOver entry l d ∨ ∃ c ∈ greedySplit entry l d, x ∈ c.2 := by
  constructor
  · intro hx
    induction l generalizing d with
    | nil => exact .inl hx
    | cons i l ih =>
      by_cases hi : x ∈ entry i
      · have hne : (d ∩ entry i).Nonempty := ⟨x, mem_inter.2 ⟨hx, hi⟩⟩
        rw [greedySplit, if_pos hne]
        exact .inr ⟨_, List.mem_cons_self .., mem_inter.2 ⟨hx, hi⟩⟩
      · rcases ih (mem_sdiff.2 ⟨hx, hi⟩) with hleft | ⟨c, hc, hxc⟩
        · exact .inl hleft
        · refine .inr ⟨c, ?_, hxc⟩
          rw [greedySplit_cons]
          exact List.mem_append_right _ hc
  · rintro (hx | ⟨c, hc, hxc⟩)
    · exact (mem_leftOver.1 hx).1
    · exact greedySplit_subset hc hxc

end Bindu.Lib
