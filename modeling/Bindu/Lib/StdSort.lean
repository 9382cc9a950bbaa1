/-
`std::sort`, as the C++ standard specifies it.

The result is a permutation of the vector in which no element is smaller than one before it. The
order of equivalent elements is left open, so the models are written against the class `StdSort`
and their theorems hold for every implementation. `insertionStdSort` is one, for concrete runs.
-/
import Bindu.Lib.StdHeap

namespace Bindu.Lib

/-- `std::sort` by the comparison `lt`, with what the standard promises about it. -/
class StdSort where
  sort : {α : Type} → (α → α → Bool) → List α → List α
  sort_perm : ∀ {α : Type} (lt : α → α → Bool) (l : List α), (sort lt l).Perm l
  sort_pairwise : ∀ {α : Type} (lt : α → α → Bool) (l : List α), StrictWeak lt →
    (sort lt l).Pairwise (fun a b => lt b a = false)

/-- An implementation that leaves equivalent elements in the order they had. -/
@[reducible] def insertionStdSort : StdSort where
  sort lt l := sortBy (fun a b => lt b a) l
  sort_perm lt l := sortBy_perm _ l
  sort_pairwise lt l hlt := by
    have htotal : Std.Total (fun a b => lt b a = false) := ⟨fun a b => by
      cases hba : lt b a with
      | false => exact Or.inl rfl
      | true => exact Or.inr (hlt.asymm b a hba)⟩
    have htrans : IsTrans _ (fun a b => lt b a = false) :=
      ⟨fun a b c hab hbc => hlt.trans c b a hbc hab⟩
    exact List.pairwise_insertionSort _ l

end Bindu.Lib
