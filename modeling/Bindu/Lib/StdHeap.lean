/-
`std::push_heap` and `std::pop_heap`, as the C++ standard specifies them.

Every queue of the network (`flitBuffer`, the priority heap of a message buffer) is a
`std::vector` kept in heap order by these two algorithms. The standard says that the
front of a heap is an element that no other element beats, that `push_heap` takes
the last element into the heap, and that `pop_heap` moves the front to the back and
leaves a heap before it. It leaves open which of several equivalent elements comes
out first, so the models do not pick one either: they are written against the class
`StdHeap`, whose instances are the implementations the standard allows, and their
theorems hold for every instance.

`sortedHeap` is one instance (a sorted list is a heap). It is what the concrete runs
of the development are computed with.
-/
import Mathlib.Tactic
import Mathlib.Data.List.Sort

namespace Bindu.Lib

open List

variable {α : Type}

/-- A comparison the heap algorithms accept: a strict weak ordering, stated through
its negation, which is how a heap uses it. -/
structure StrictWeak (comp : α → α → Bool) : Prop where
  asymm : ∀ a b, comp a b = true → comp b a = false
  trans : ∀ a b c, comp a b = false → comp b c = false → comp a c = false

/-- Heap order: no element is beaten by its parent. The comparison of the models is
`greater`, so a parent is never greater than its child. -/
def IsHeap (comp : α → α → Bool) (l : List α) : Prop :=
  ∀ i, 0 < i → ∀ x y, l[(i - 1) / 2]? = some x → l[i]? = some y → comp x y = false

/-- The two heap algorithms with what the standard promises about them. -/
class StdHeap where
  push_heap : {α : Type} → (α → α → Bool) → List α → List α
  pop_heap : {α : Type} → (α → α → Bool) → List α → List α
  push_perm : ∀ {α : Type} (comp : α → α → Bool) (l : List α), (push_heap comp l).Perm l
  push_isHeap : ∀ {α : Type} (comp : α → α → Bool) (l : List α) (x : α), StrictWeak comp →
    IsHeap comp l → IsHeap comp (push_heap comp (l ++ [x]))
  pop_last : ∀ {α : Type} (comp : α → α → Bool) (x : α) (l : List α),
    ∃ l', pop_heap comp (x :: l) = l' ++ [x] ∧ l'.Perm l
  pop_isHeap : ∀ {α : Type} (comp : α → α → Bool) (x : α) (l l' : List α), StrictWeak comp →
    IsHeap comp (x :: l) → pop_heap comp (x :: l) = l' ++ [x] → IsHeap comp l'

variable {comp : α → α → Bool}

/-- The front of a heap is beaten by no element of it. The induction goes from an
element to its parent. -/
theorem IsHeap.front_le (hc : StrictWeak comp) {x : α} {l : List α}
    (h : IsHeap comp (x :: l)) : ∀ y ∈ x :: l, comp x y = false := by
  have hirr : comp x x = false := by
    by_contra hx
    rw [Bool.not_eq_false] at hx
    rw [hc.asymm x x hx] at hx
    exact Bool.false_ne_true hx
  have key : ∀ (i : ℕ) (y : α), (x :: l)[i]? = some y → comp x y = false := by
    intro i
    induction i using Nat.strong_induction_on with
    | _ i ih =>
      intro y hy
      rcases Nat.eq_zero_or_pos i with hi | hi
      · subst hi
        simp only [getElem?_cons_zero, Option.some.injEq] at hy
        rw [← hy]
        exact hirr
      · have hlt : i < (x :: l).length := by
          by_contra hge
          rw [getElem?_eq_none (by omega)] at hy
          simp at hy
        have hp : (i - 1) / 2 < (x :: l).length := by omega
        have hpar := ih ((i - 1) / 2) (by omega) _ (getElem?_eq_getElem hp)
        exact hc.trans _ _ _ hpar (h i hi _ _ (getElem?_eq_getElem hp) hy)
  intro y hy
  obtain ⟨i, hi⟩ := mem_iff_getElem?.mp hy
  exact key i y hi

/-- If one element of a heap is beaten by all others, it is at the front. -/
theorem IsHeap.front_eq (hc : StrictWeak comp) {x y : α} {h l : List α}
    (hheap : IsHeap comp (x :: h)) (hperm : (x :: h).Perm (y :: l))
    (hfirst : ∀ z ∈ l, comp z y = true) : x = y := by
  rcases mem_cons.1 (hperm.subset mem_cons_self) with hx | hx
  · exact hx
  · have hxy := hheap.front_le hc y (hperm.symm.subset mem_cons_self)
    rw [hfirst x hx] at hxy
    exact absurd hxy.symm Bool.false_ne_true

/-- A heap stays one when an element comes last that beats none of the others. -/
theorem IsHeap.concat {x : α} {l : List α} (h : IsHeap comp l)
    (hx : ∀ y ∈ l, comp y x = false) : IsHeap comp (l ++ [x]) := by
  intro i hi a b ha hb
  have hlt := (List.getElem?_eq_some_iff.1 hb).1
  rw [List.length_append, List.length_singleton] at hlt
  rw [List.getElem?_append_left (by omega)] at ha
  by_cases hil : i < l.length
  · rw [getElem?_append_left hil] at hb
    exact h i hi a b ha hb
  · rw [show i = l.length by omega, getElem?_concat_length, Option.some.injEq] at hb
    exact hb ▸ hx a (mem_of_getElem? ha)

/-! ## A sorted list is a heap -/

theorem isHeap_of_pairwise {l : List α}
    (h : l.Pairwise (fun a b => comp a b = false)) : IsHeap comp l := by
  intro i hi x y hx hy
  obtain ⟨hpi, rfl⟩ := List.getElem?_eq_some_iff.mp hx
  obtain ⟨hii, rfl⟩ := List.getElem?_eq_some_iff.mp hy
  exact List.pairwise_iff_getElem.mp h _ _ hpi hii (by omega)

/-- The insertion sort of a vector by `comp`, which leaves equivalent elements in the
order they had. -/
def sortBy (comp : α → α → Bool) (l : List α) : List α :=
  l.insertionSort (fun a b => comp a b = false)

theorem sortBy_perm (comp : α → α → Bool) (l : List α) : (sortBy comp l).Perm l :=
  perm_insertionSort _ l

theorem sortBy_isHeap (hc : StrictWeak comp) (l : List α) :
    IsHeap comp (sortBy comp l) := by
  have htotal : Std.Total (fun a b => comp a b = false) := ⟨fun a b => by
    cases hab : comp a b with
    | false => exact .inl rfl
    | true => exact .inr (hc.asymm a b hab)⟩
  have htrans : IsTrans α (fun a b => comp a b = false) := ⟨hc.trans⟩
  exact isHeap_of_pairwise (pairwise_insertionSort _ l)

/-- A heap implementation that keeps the vector sorted. -/
@[reducible] def sortedHeap : StdHeap where
  push_heap comp l := sortBy comp l
  pop_heap comp l :=
    match l with
    | [] => []
    | x :: l => sortBy comp l ++ [x]
  push_perm comp l := sortBy_perm comp l
  push_isHeap comp l x hc _ := sortBy_isHeap hc (l ++ [x])
  pop_last comp x l := ⟨_, rfl, sortBy_perm comp l⟩
  pop_isHeap comp x l l' hc _ h := by
    have heq : sortBy comp l = l' := append_cancel_right h
    rw [← heq]
    exact sortBy_isHeap hc l

end Bindu.Lib
