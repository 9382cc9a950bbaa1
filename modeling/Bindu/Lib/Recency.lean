/-
A list kept in the order of last use.

The element used last is at the front. The distance of an element is its position: the number
of others used since. When every element carries the time of its last use, the list is the
one sorted by these times, and the position of an element is the number of times after its own.
-/
import Bindu.Lib.DyadicSums

namespace Bindu.Lib

open Function List

namespace Recency

variable {α : Type}

/-- `stamp` gives the times of last use: those in `live`, later ones further to the front. -/
structure Stamped (stamp : α → Option ℕ) (live : ℕ → Bool) (l : List α) : Prop where
  mem_iff : ∀ a, a ∈ l ↔ (stamp a).isSome = true
  live_iff : ∀ x, live x = true ↔ ∃ a, stamp a = some x
  sorted : l.Pairwise (fun a b => ∀ x y, stamp a = some x → stamp b = some y → y < x)

variable {stamp : α → Option ℕ} {live : ℕ → Bool} {l : List α} {a : α} {j : ℕ}

theorem Stamped.nil : Stamped (fun _ : α => none) (fun _ => false) [] := by
  refine ⟨fun a => by simp, fun x => by simp, Pairwise.nil⟩

theorem Stamped.mem (h : Stamped stamp live l) (ha : stamp a = some j) : a ∈ l := by
  rw [h.mem_iff, ha]
  rfl

theorem Stamped.nodup (h : Stamped stamp live l) : l.Nodup := by
  refine Pairwise.imp_of_mem ?_ h.sorted
  rintro a b ha - hab rfl
  obtain ⟨x, hx⟩ := Option.isSome_iff_exists.mp ((h.mem_iff a).mp ha)
  exact absurd (hab x x hx hx) (lt_irrefl x)

/-- What stands before and behind an element. -/
theorem Stamped.split (h : Stamped stamp live l) {front back : List α}
    (hl : l = front ++ a :: back) (ha : stamp a = some j) :
    (∀ b ∈ front, ∀ x, stamp b = some x → j < x) ∧ (∀ b ∈ back, ∀ x, stamp b = some x → x < j) := by
  have hsorted := h.sorted
  rw [hl, pairwise_append, pairwise_cons] at hsorted
  obtain ⟨-, ⟨hback, -⟩, hfront⟩ := hsorted
  exact ⟨fun b hb x hx => hfront b hb a mem_cons_self x j hx ha,
    fun b hb x hx => hback b hb j x ha hx⟩

theorem Stamped.injective (h : Stamped stamp live l) {b : α} (ha : stamp a = some j)
    (hb : stamp b = some j) : a = b := by
  obtain ⟨front, back, hl⟩ := append_of_mem (h.mem ha)
  obtain ⟨hfront, hback⟩ := h.split hl ha
  have hmem := h.mem hb
  rw [hl, mem_append, mem_cons] at hmem
  rcases hmem with hf | rfl | hbk
  · exact absurd (hfront b hf j hb) (lt_irrefl j)
  · rfl
  · exact absurd (hback b hbk j hb) (lt_irrefl j)

variable [DecidableEq α]

/-- The number of elements used since `a` was, if `a` is in the list. -/
def distance (l : List α) (a : α) : Option ℕ := if a ∈ l then some (l.idxOf a) else none

/-- `a` is used. -/
def touch (l : List α) (a : α) : List α := a :: l.erase a

theorem Stamped.remove (h : Stamped stamp live l) (ha : stamp a = some j) :
    Stamped (update stamp a none) (update live j false) (l.erase a) := by
  have hsome : ∀ b x, update stamp a none b = some x ↔ b ≠ a ∧ stamp b = some x := by
    intro b x
    rw [update_apply]
    split_ifs with hb <;> simp [hb]
  refine ⟨?_, ?_, ?_⟩
  · intro b
    rw [h.nodup.mem_erase_iff, h.mem_iff, update_apply]
    split_ifs with hb <;> simp [hb]
  · intro x
    simp only [hsome]
    rw [update_apply]
    split_ifs with hx
    · subst hx
      simpa using fun b hba hb => hba (h.injective hb ha)
    · rw [h.live_iff]
      refine exists_congr fun b => (and_iff_right_of_imp ?_).symm
      rintro hb rfl
      exact hx (Option.some.inj (hb.symm.trans ha))
  · refine (h.sorted.sublist erase_sublist).imp ?_
    intro b c hlt x y hx hy
    exact hlt x y ((hsome b x).mp hx).2 ((hsome c y).mp hy).2

/-- An element that was not in the list is used at a later time than all others. -/
theorem Stamped.push (h : Stamped stamp live l) (ha : stamp a = none) {n : ℕ}
    (hn : ∀ x, live x = true → x < n) :
    Stamped (update stamp a (some n)) (update live n true) (a :: l) := by
  have hsome : ∀ b x, update stamp a (some n) b = some x ↔ b = a ∧ n = x ∨ stamp b = some x := by
    intro b x
    rw [update_apply]
    split_ifs with hb <;> simp [hb, ha]
  have hother : ∀ b ∈ l, ∀ x, update stamp a (some n) b = some x → stamp b = some x := by
    intro b hb x hx
    refine ((hsome b x).mp hx).resolve_left ?_
    rintro ⟨rfl, -⟩
    simp [h.mem_iff, ha] at hb
  refine ⟨?_, ?_, ?_⟩
  · intro b
    rw [mem_cons, h.mem_iff, update_apply]
    split_ifs with hb <;> simp [hb]
  · intro x
    simp only [hsome, exists_or, exists_eq_left, ← h.live_iff]
    rw [update_apply]
    split_ifs with hx
    · simp [hx]
    · simp [Ne.symm hx]
  · refine pairwise_cons.mpr ⟨fun b hb x y hx hy => ?_, h.sorted.imp_of_mem ?_⟩
    · rw [update_self] at hx
      rw [← Option.some.inj hx]
      exact hn y ((h.live_iff y).mpr ⟨b, hother b hb y hy⟩)
    · intro b c hb hc hlt x y hx hy
      exact hlt x y (hother b hb x hx) (hother c hc y hy)

theorem Stamped.idxOf_eq (h : Stamped stamp live l) (ha : stamp a = some j) {n : ℕ}
    (hn : ∀ x, live x = true → x < n) : l.idxOf a = marks live (j + 1) n := by
  obtain ⟨front, back, hl⟩ := append_of_mem (h.mem ha)
  obtain ⟨hfront, hback⟩ := h.split hl ha
  have hnodup := h.nodup
  rw [hl, nodup_append] at hnodup
  have hnot : a ∉ front := fun hf => hnodup.2.2 a hf a mem_cons_self rfl
  -- the later times are those of the elements in front
  have htimes : ∀ b ∈ front, ∃ x, stamp b = some x := fun b hb =>
    Option.isSome_iff_exists.mp ((h.mem_iff b).mp (by rw [hl]; exact mem_append_left _ hb))
  have himage : (Finset.Ico (j + 1) n).filter (fun x => live x = true)
      = front.toFinset.image (fun b => (stamp b).getD 0) := by
    ext x
    rw [Finset.mem_filter, Finset.mem_Ico, Finset.mem_image]
    constructor
    · rintro ⟨⟨hjx, -⟩, hx⟩
      obtain ⟨b, hb⟩ := (h.live_iff x).mp hx
      refine ⟨b, ?_, by rw [hb]; rfl⟩
      have hmem := h.mem hb
      rw [hl, mem_append, mem_cons] at hmem
      rw [mem_toFinset]
      rcases hmem with hf | rfl | hbk
      · exact hf
      · have hxj := Option.some.inj (hb.symm.trans ha)
        omega
      · have hlt := hback b hbk x hb
        omega
    · rintro ⟨b, hb, rfl⟩
      rw [mem_toFinset] at hb
      obtain ⟨x, hx⟩ := htimes b hb
      have hlive := (h.live_iff x).mpr ⟨b, hx⟩
      rw [hx]
      exact ⟨⟨hfront b hb x hx, hn x hlive⟩, hlive⟩
  have hinj : Set.InjOn (fun b => (stamp b).getD 0) (front.toFinset : Set α) := by
    intro b hb c hc hbc
    rw [Finset.mem_coe, mem_toFinset] at hb hc
    obtain ⟨x, hx⟩ := htimes b hb
    obtain ⟨y, hy⟩ := htimes c hc
    have hxy : x = y := by simpa [hx, hy] using hbc
    rw [← hxy] at hy
    exact h.injective hx hy
  rw [marks, himage, Finset.card_image_of_injOn hinj, toFinset_card_of_nodup hnodup.1, hl,
    idxOf_append_of_notMem hnot, idxOf_cons_self, Nat.add_zero]

end Recency

end Bindu.Lib
