/-
Two computations step by step.

`Sim R x y` says that `x` and `y` stop with the same fault, or return results related by `R`. It is
the rule for replacing a data structure by a simpler one: the two versions of a program are walked
through side by side, and what holds of one carries over to the other.
-/
import Bindu.Lib.Fallible

namespace Bindu.Lib

variable {ε α β γ δ σ τ : Type}

def Sim (R : α → β → Prop) : Except ε α → Except ε β → Prop
  | .ok a, .ok b => R a b
  | .error e, .error e' => e = e'
  | _, _ => False

namespace Sim

variable {R : α → β → Prop} {T : γ → δ → Prop} {x : Except ε α} {y : Except ε β}
  {f : α → Except ε γ} {g : β → Except ε δ}

theorem bind (hx : Sim R x y) (hf : ∀ a b, R a b → Sim T (f a) (g b)) :
    Sim T (x >>= f) (y >>= g) := by
  cases x with
  | error e =>
    cases y with
    | error e' => exact hx
    | ok b => exact hx.elim
  | ok a =>
    cases y with
    | error e' => exact hx.elim
    | ok b => exact hf a b hx

theorem imp {S : α → β → Prop} (hx : Sim R x y) (hR : ∀ a b, R a b → S a b) : Sim S x y := by
  cases x with
  | error e =>
    cases y with
    | error e' => exact hx
    | ok b => exact hx.elim
  | ok a =>
    cases y with
    | error e' => exact hx.elim
    | ok b => exact hR a b hx

/-- Both sides do the same first. -/
theorem skip (z : Except ε α) {g : α → Except ε δ} (hf : ∀ a, Sim T (f a) (g a)) :
    Sim T (z >>= f) (z >>= g) := by
  cases z with
  | error e => exact rfl
  | ok a => exact hf a

/-- Two loops over one list. The invariant may mention what is left of it. -/
theorem foldlM {f : σ → α → Except ε σ} {g : τ → α → Except ε τ} (I : List α → σ → τ → Prop) :
    ∀ (l : List α) (s : σ) (t : τ), I l s t →
      (∀ a rest s t, I (a :: rest) s t → Sim (I rest) (f s a) (g t a)) →
      Sim (I []) (l.foldlM f s) (l.foldlM g t) := by
  intro l
  induction l with
  | nil => intro s t h _; exact h
  | cons a rest ih =>
    intro s t h hstep
    rw [List.foldlM_cons, List.foldlM_cons]
    exact (hstep a rest s t h).bind (fun s' t' h' => ih s' t' h' hstep)

/-- What is known of one side holds of the other. -/
theorem ok {P : α → Prop} {E : ε → Prop} (h : Sim R x y) (hx : Ok P E x) :
    Ok (fun b => ∃ a, P a ∧ R a b) E y := by
  cases x with
  | error e =>
    cases y with
    | error e' =>
      rw [← show e = e' from h]
      exact hx
    | ok b => exact h.elim
  | ok a =>
    cases y with
    | error e' => exact h.elim
    | ok b => exact ⟨a, hx, h⟩

end Sim

end Bindu.Lib
