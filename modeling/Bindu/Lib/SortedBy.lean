/-
Lists that are sorted by a key, where several elements may have the same key.

Queues of timed things are such lists. A new element goes behind the elements with the same
key, that is, in front of the first element with a greater one; this is Mathlib's
`orderedInsert` for the strict order of the keys. Its library results ask for a total relation
on the elements, which the strict order of the keys is not, so the facts about sortedness are
stated here for a key.
-/
import Mathlib.Data.List.Sort
import Mathlib.Tactic

namespace Bindu.Lib

open List

variable {α β : Type} [LinearOrder β]

theorem pairwise_concat {R : α → α → Prop} {l : List α} {a : α} :
    (l ++ [a]).Pairwise R ↔ l.Pairwise R ∧ ∀ b ∈ l, R b a := by
  simp [pairwise_append]

/-- `l` is sorted by `key`. -/
def SortedBy (key : α → β) (l : List α) : Prop :=
  l.Pairwise (fun a b => key a ≤ key b)

instance (key : α → β) (l : List α) : Decidable (SortedBy key l) :=
  inferInstanceAs (Decidable (l.Pairwise _))

/-- `a` goes in front of the first element with a greater key. -/
def insertByKey (key : α → β) (a : α) (l : List α) : List α :=
  l.orderedInsert (fun x y => key x < key y) a

namespace SortedBy

variable {key : α → β} {l l' : List α} {a : α}

theorem nil (key : α → β) : SortedBy key [] := Pairwise.nil

theorem sublist (h : SortedBy key l) (hsub : Sublist l' l) : SortedBy key l' :=
  Pairwise.sublist hsub h

theorem cons_iff : SortedBy key (a :: l) ↔ (∀ b ∈ l, key a ≤ key b) ∧ SortedBy key l :=
  pairwise_cons

theorem append_iff :
    SortedBy key (l ++ l') ↔ SortedBy key l ∧ SortedBy key l' ∧ ∀ a ∈ l, ∀ b ∈ l', key a ≤ key b :=
  pairwise_append

theorem head_le (h : SortedBy key (a :: l)) {b : α} (hb : b ∈ a :: l) : key a ≤ key b := by
  rcases mem_cons.mp hb with rfl | hb
  · exact le_refl _
  · exact (cons_iff.mp h).1 b hb

theorem le_getLast (h : SortedBy key l) {b c : α} (hlast : l.getLast? = some b) (hc : c ∈ l) :
    key c ≤ key b := by
  obtain ⟨front, rfl⟩ := getLast?_eq_some_iff.mp hlast
  rw [append_iff] at h
  rcases mem_append.mp hc with hc | hc
  · exact h.2.2 c hc b (mem_singleton_self b)
  · rw [mem_singleton.mp hc]

theorem insert (h : SortedBy key l) : SortedBy key (insertByKey key a l) := by
  induction l with
  | nil => exact pairwise_singleton _ a
  | cons b rest ih =>
    rw [insertByKey, orderedInsert_cons]
    by_cases hab : key a < key b
    · rw [if_pos hab, cons_iff]
      exact ⟨fun c hc => le_trans (le_of_lt hab) (h.head_le hc), h⟩
    · rw [if_neg hab, cons_iff]
      rw [cons_iff] at h
      refine ⟨fun c hc => ?_, ih h.2⟩
      rcases (mem_orderedInsert _).mp hc with rfl | hc
      · exact not_lt.mp hab
      · exact h.1 c hc

theorem congr {key' : α → β} (h : SortedBy key l) (heq : ∀ a ∈ l, key' a = key a) :
    SortedBy key' l := by
  refine Pairwise.imp_of_mem (fun {b c} hb hc hle => ?_) h
  rw [heq b hb, heq c hc]
  exact hle

/-- One element gets a later key and stays in its place: the list is sorted again if the next
element is later still. -/
theorem raise {key' : α → β} {front back : List α} (h : SortedBy key (front ++ a :: back))
    (hother : ∀ b ∈ front ++ back, key' b = key b) (hlater : key a ≤ key' a)
    (hnext : ∀ b, back.head? = some b → key' a ≤ key b) : SortedBy key' (front ++ a :: back) := by
  rw [append_iff, cons_iff] at h
  obtain ⟨hfront, ⟨hafter, hback⟩, hcross⟩ := h
  have hfront' := hfront.congr (fun b hb => hother b (mem_append_left _ hb))
  have hback' := hback.congr (fun b hb => hother b (mem_append_right _ hb))
  -- everything behind is at least as late as the next element
  have hbehind : ∀ b ∈ back, key' a ≤ key' b := by
    intro b hb
    rw [hother b (mem_append_right _ hb)]
    cases back with
    | nil => exact absurd hb not_mem_nil
    | cons c rest => exact le_trans (hnext c rfl) (hback.head_le hb)
  rw [append_iff, cons_iff]
  refine ⟨hfront', ⟨hbehind, hback'⟩, ?_⟩
  intro b hb c hc
  rw [hother b (mem_append_left _ hb)]
  have hba : key b ≤ key a := hcross b hb a mem_cons_self
  rcases mem_cons.mp hc with rfl | hc
  · exact le_trans hba hlater
  · exact le_trans (le_trans hba hlater) (hbehind c hc)

end SortedBy

theorem insertByKey_perm (key : α → β) (a : α) (l : List α) :
    (insertByKey key a l).Perm (a :: l) :=
  perm_orderedInsert _ a l

theorem mem_insertByKey {key : α → β} {a b : α} {l : List α} :
    b ∈ insertByKey key a l ↔ b = a ∨ b ∈ l :=
  mem_orderedInsert _

theorem insertByKey_eq_concat {key : α → β} {a : α} {l : List α} (h : ∀ b ∈ l, key b ≤ key a) :
    insertByKey key a l = l ++ [a] := by
  induction l with
  | nil => rfl
  | cons b rest ih =>
    have hb : ¬ key a < key b := not_lt.mpr (h b mem_cons_self)
    rw [insertByKey, orderedInsert_cons, if_neg hb, cons_append, ← ih]
    · rfl
    · exact fun c hc => h c (mem_cons_of_mem _ hc)

/-! ## Searching from the end

A queue can also be searched backwards: the new element goes behind the last element that it
must not overtake. The order that results need not come from a key. -/

/-- `a` goes behind the last element that `holds` it back; `none` if there is no such element. -/
def insertBehind (holds : α → Bool) (a : α) : List α → Option (List α)
  | [] => none
  | b :: rest =>
    match insertBehind holds a rest with
    | some rest' => some (b :: rest')
    | none => if holds b then some (b :: a :: rest) else none

theorem insertBehind_eq_none {holds : α → Bool} {a : α} {l : List α}
    (h : insertBehind holds a l = none) : ∀ b ∈ l, holds b = false := by
  induction l with
  | nil => exact fun b hb => absurd hb not_mem_nil
  | cons c rest ih =>
    rw [insertBehind] at h
    cases hrest : insertBehind holds a rest with
    | some rest' => simp [hrest] at h
    | none =>
      simp only [hrest] at h
      intro b hb
      rcases mem_cons.mp hb with rfl | hb
      · by_contra hhold
        rw [if_pos (by simpa using hhold)] at h
        simp at h
      · exact ih hrest b hb

/-- The list is cut behind the last element that holds `a` back. -/
theorem insertBehind_eq_some {holds : α → Bool} {a : α} {l l' : List α}
    (h : insertBehind holds a l = some l') :
    ∃ front b back, l = front ++ b :: back ∧ l' = front ++ b :: a :: back ∧ holds b = true
      ∧ ∀ c ∈ back, holds c = false := by
  induction l generalizing l' with
  | nil => exact absurd h (by simp [insertBehind])
  | cons c rest ih =>
    rw [insertBehind] at h
    cases hrest : insertBehind holds a rest with
    | some rest' =>
      simp only [hrest, Option.some.injEq] at h
      obtain ⟨front, b, back, heq, heq', hb, hback⟩ := ih hrest
      refine ⟨c :: front, b, back, ?_, ?_, hb, hback⟩
      · rw [heq, cons_append]
      · rw [← h, heq', cons_append]
    | none =>
      simp only [hrest] at h
      by_cases hc : holds c = true
      · rw [if_pos hc, Option.some.injEq] at h
        exact ⟨[], c, rest, rfl, h.symm, hc, insertBehind_eq_none hrest⟩
      · rw [if_neg hc] at h
        simp at h

/-- An element comes between two parts of an ordered list, after everything in the first part
and before everything in the second. -/
theorem pairwise_between {R : α → α → Prop} {a : α} {front back : List α}
    (h : (front ++ back).Pairwise R) (hfront : ∀ b ∈ front, R b a) (hback : ∀ b ∈ back, R a b) :
    (front ++ a :: back).Pairwise R := by
  rw [pairwise_append] at h ⊢
  refine ⟨h.1, pairwise_cons.mpr ⟨hback, h.2.1⟩, ?_⟩
  intro b hb c hc
  rcases mem_cons.mp hc with rfl | hc
  · exact hfront b hb
  · exact h.2.2 b hb c hc

end Bindu.Lib
