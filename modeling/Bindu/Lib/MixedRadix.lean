/-
Numbers by their digits in a mixed radix.

A program that takes a number apart by divisions, one bound after the other from the lowest digit
up, gives some digits a meaning and drops others. In a window of consecutive numbers that is as
long as the product of the bounds, and starts at a multiple of it, every combination of the digits
that count occurs as often as there are choices for the others.
-/
import Mathlib.Tactic

namespace Bindu.Lib

open Finset

/-- Do the digits of `n` have the values that are given? The digits come with their bounds, the
lowest first. -/
def Hits : List (ℕ × Option ℕ) → ℕ → Prop
  | [], _ => True
  | (b, d) :: ds, n => (∀ x ∈ d, n % b = x) ∧ Hits ds (n / b)

instance : ∀ ds n, Decidable (Hits ds n)
  | [], _ => inferInstanceAs (Decidable True)
  | (b, d) :: ds, n =>
    have := instDecidableHits ds (n / b)
    inferInstanceAs (Decidable ((∀ x ∈ d, n % b = x) ∧ Hits ds (n / b)))

namespace Hits

/-- The product of the bounds. -/
def size (ds : List (ℕ × Option ℕ)) : ℕ := (ds.map Prod.fst).prod

/-- The number of choices for the digits that are not given. -/
def choices (ds : List (ℕ × Option ℕ)) : ℕ :=
  (ds.map (fun e => if e.2.isSome then 1 else e.1)).prod

end Hits

theorem card_filter_digit {b : ℕ} (hb : 0 < b) (f g : ℕ → Prop) [DecidablePred f]
    [DecidablePred g] (lo hi : ℕ) :
    ((Ico (lo * b) (hi * b)).filter (fun n => f (n % b) ∧ g (n / b))).card
      = ((range b).filter f).card * ((Ico lo hi).filter g).card := by
  have hdigits : ∀ {m d}, d < b → (m * b + d) % b = d ∧ (m * b + d) / b = m := by
    intro m d hd
    rw [Nat.mul_add_mod', Nat.mod_eq_of_lt hd, Nat.add_comm, Nat.add_mul_div_right _ _ hb,
      Nat.div_eq_of_lt hd, Nat.zero_add]
    exact ⟨rfl, rfl⟩
  rw [← card_product]
  refine card_nbij' (fun n => (n % b, n / b)) (fun x => x.2 * b + x.1) ?_ ?_ ?_ ?_
  · intro n hn
    rw [mem_coe, mem_filter, mem_Ico] at hn
    rw [mem_coe, mem_product, mem_filter, mem_filter, mem_range, mem_Ico]
    obtain ⟨⟨hlo, hhi⟩, hf, hg⟩ := hn
    exact ⟨⟨Nat.mod_lt n hb, hf⟩, ⟨(Nat.le_div_iff_mul_le hb).2 hlo,
      (Nat.div_lt_iff_lt_mul hb).2 hhi⟩, hg⟩
  · rintro ⟨d, m⟩ hx
    rw [mem_coe, mem_product, mem_filter, mem_filter, mem_range, mem_Ico] at hx
    obtain ⟨⟨hd, hf⟩, ⟨hlo, hhi⟩, hg⟩ := hx
    rw [mem_coe, mem_filter, mem_Ico, (hdigits hd).1, (hdigits hd).2]
    have hle := Nat.mul_le_mul_right b hlo
    have hlt := Nat.mul_le_mul_right b (Nat.succ_le_of_lt hhi)
    rw [Nat.succ_mul] at hlt
    dsimp only at hle hlt ⊢
    exact ⟨⟨by omega, by omega⟩, hf, hg⟩
  · intro n _
    exact Nat.div_add_mod' n b
  · rintro ⟨d, m⟩ hx
    rw [mem_coe, mem_product, mem_filter, mem_range] at hx
    have hd := hx.1.1
    dsimp only at hd ⊢
    rw [(hdigits hd).1, (hdigits hd).2]

theorem card_filter_given {b : ℕ} (d : Option ℕ) (hd : ∀ x ∈ d, x < b) :
    ((range b).filter (fun y => ∀ x ∈ d, y = x)).card = if d.isSome then 1 else b := by
  cases d with
  | none => simp
  | some x =>
    have hfilter : (range b).filter (fun y => ∀ z ∈ some x, y = z) = {x} := by
      ext y
      simp only [mem_filter, mem_range, Option.mem_some_iff, forall_eq', mem_singleton]
      exact ⟨fun h => h.2, fun h => ⟨h ▸ hd x rfl, h⟩⟩
    rw [hfilter, card_singleton]
    rfl

/-- **Every combination of given digits occurs equally often.** -/
theorem Hits.card {ds : List (ℕ × Option ℕ)} (hpos : ∀ e ∈ ds, 0 < e.1)
    (hgiven : ∀ e ∈ ds, ∀ x ∈ e.2, x < e.1) (w : ℕ) :
    ((Ico (w * size ds) ((w + 1) * size ds)).filter (Hits ds)).card = choices ds := by
  induction ds with
  | nil => simp [size, choices, Hits]
  | cons e ds ih =>
    obtain ⟨b, d⟩ := e
    rw [List.forall_mem_cons] at hpos hgiven
    have hsize : size ((b, d) :: ds) = size ds * b := by
      rw [size, List.map_cons, List.prod_cons, mul_comm]
      rfl
    rw [hsize, ← mul_assoc, ← mul_assoc]
    have hcard := card_filter_digit hpos.1 (fun y => ∀ x ∈ d, y = x) (Hits ds) (w * size ds)
      ((w + 1) * size ds)
    rw [ih hpos.2 hgiven.2, card_filter_given d hgiven.1] at hcard
    exact hcard

end Bindu.Lib
