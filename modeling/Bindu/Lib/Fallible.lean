/-
Computations that may stop with a fault, and the rules for reasoning about them.

A C++ `assert`, a `panic` or a `fatal` ends the simulation. A model function that
contains one returns `Except ε α`, and every statement about such a function has
two halves: what the result satisfies when there is one, and which faults remain
possible when there is none. `Ok P E x` is both halves in one predicate, so that a
proof walks through a computation once.

The rules below are the usual ones of a calculus of postconditions: `pure`,
`throw`, sequencing, consequence, and one invariant rule for each loop the models
use (`List.foldlM` and the search `firstM`).
-/
import Mathlib.Tactic

namespace Bindu.Lib

variable {ε α β : Type}

/-- `Ok P E x`: if `x` returns, the result satisfies `P`; if it stops, the fault
satisfies `E`. -/
def Ok (P : α → Prop) (E : ε → Prop) : Except ε α → Prop
  | .ok a => P a
  | .error e => E e

variable {x : Except ε α}

namespace Ok

variable {P Q : α → Prop} {R : β → Prop} {E F : ε → Prop}

@[simp] theorem ok_iff (a : α) : Ok P E (.ok a : Except ε α) ↔ P a := Iff.rfl

@[simp] theorem pure_iff (a : α) : Ok P E (pure a : Except ε α) ↔ P a := Iff.rfl

theorem triv (x : Except ε α) : Ok ⊤ ⊤ x := by
  cases x <;> trivial

/-- Sequencing: a postcondition of the first part is the precondition of the rest. -/
theorem bind {f : α → Except ε β} (hx : Ok Q E x) (hf : ∀ a, Q a → Ok R E (f a)) : Ok R E (x >>= f):= by
  cases x with
  | error e => exact hx
  | ok a => exact hf a hx

/-- Sequencing after a part of which nothing has to be known. -/
theorem skip {f : α → Except ε β} (hf : ∀ a, Ok R ⊤ (f a)) :
    Ok R ⊤ (x >>= f) :=
  (triv x).bind fun a _ => hf a

theorem mono (hx : Ok P E x) (hP : ∀ a, P a → Q a) (hE : ∀ e, E e → F e) :
    Ok Q F x := by
  cases x with
  | error e => exact hE e hx
  | ok a => exact hP a hx

theorem imp (hx : Ok P E x) (hP : ∀ a, P a → Q a) : Ok Q E x :=
  hx.mono hP (fun _ h => h)

theorem elim {a : α} (hx : Ok P E x) (h : x = .ok a) : P a := by
  rw [h] at hx
  exact hx

theorem elim_error {e : ε} (hx : Ok P E x) (h : x = .error e) : E e := by
  rw [h] at hx
  exact hx

theorem returns (hx : Ok P ⊥ x) : ∃ a, x = .ok a ∧ P a := by
  cases x with
  | error e => exact absurd hx id
  | ok a => exact ⟨a, rfl, hx⟩

variable {f : β → α → Except ε β}

/-- The invariant rule for a `foldlM` loop. The invariant may mention how much of
the list is still to be processed. -/
theorem foldlM (I : List α → β → Prop) :
    ∀ (l : List α) (b : β), I l b →
      (∀ a rest b, I (a :: rest) b → Ok (I rest) E (f b a)) → Ok (I []) E (l.foldlM f b) := by
  intro l
  induction l with
  | nil => intro b hb _; exact hb
  | cons a rest ih =>
    intro b hb hstep
    rw [List.foldlM_cons]
    exact (hstep a rest b hb).bind (fun b' hb' => ih b' hb' hstep)

/-- The invariant rule for a `foldlM` loop whose invariant does not look at the list. -/
theorem foldlM_inv (I : β → Prop) {l : List α} {b : β} (hb : I b)
    (hstep : ∀ a ∈ l, ∀ b, I b → Ok I E (f b a)) : Ok I E (l.foldlM f b) := by
  have h := foldlM (E := E) (f := f) (fun rest b => I b ∧ ∀ a ∈ rest, a ∈ l) l b
    ⟨hb, fun _ ha => ha⟩ ?_
  · exact h.imp (fun _ h => h.1)
  · rintro a rest b ⟨hb, hl⟩
    refine (hstep a (hl a (List.mem_cons_self ..)) b hb).imp (fun b' hb' => ⟨hb', ?_⟩)
    exact fun a' ha' => hl a' (List.mem_cons_of_mem _ ha')

/-- A loop whose body returns exactly at the elements with `Q`, and then keeps the invariant:
the loop returns exactly if all elements have `Q`. -/
theorem foldlM_all (I : List α → β → Prop) (Q : α → Prop) :
    ∀ (l : List α) (b : β), I l b → (∀ a rest b, I (a :: rest) b →
        Ok (fun b' => I rest b' ∧ Q a) (fun e => E e ∧ ¬ Q a) (f b a)) →
      Ok (fun b' => I [] b' ∧ ∀ a ∈ l, Q a) (fun e => E e ∧ ¬ ∀ a ∈ l, Q a) (l.foldlM f b) := by
  intro l
  induction l with
  | nil => exact fun b hb _ => ⟨hb, fun a ha => absurd ha List.not_mem_nil⟩
  | cons a rest ih =>
    intro b hb hstep
    rw [List.foldlM_cons]
    refine ((hstep a rest b hb).mono (fun _ h => h) ?_).bind ?_
    · exact fun _ hno => ⟨hno.1, fun hall => hno.2 (hall a List.mem_cons_self)⟩
    · rintro b' ⟨hb', hQ⟩
      refine (ih b' hb' hstep).mono ?_ ?_
      · exact fun b'' h => ⟨h.1, List.forall_mem_cons.2 ⟨hQ, h.2⟩⟩
      · exact fun _ hno => ⟨hno.1, fun hall => hno.2 (List.forall_mem_cons.1 hall).2⟩

/-- A loop whose body reaches `Q` for its element and keeps what was reached for the others. -/
theorem foldlM_each (I : β → Prop) (Q : α → β → Prop) (l : List α) (b : β) (hb : I b)
    (hstep : ∀ a b, I b → Ok (fun b' => I b' ∧ Q a b' ∧ ∀ a', Q a' b → Q a' b') E (f b a)) :
    Ok (fun b' => I b' ∧ (∀ a ∈ l, Q a b') ∧ ∀ a, Q a b → Q a b') E (l.foldlM f b) := by
  induction l generalizing b with
  | nil => exact ⟨hb, fun a ha => absurd ha List.not_mem_nil, fun _ h => h⟩
  | cons a rest ih =>
    rw [List.foldlM_cons]
    refine (hstep a b hb).bind ?_
    rintro b' ⟨hb', hQ, hkeep⟩
    refine (ih b' hb').imp ?_
    rintro b'' ⟨hb'', hall, hkeep'⟩
    exact ⟨hb'', List.forall_mem_cons.2 ⟨hkeep' a hQ, hall⟩, fun a' h => hkeep' a' (hkeep a' h)⟩

theorem mapError {δ : Type} {x : Except δ α} {g : δ → ε} (hx : Ok P (fun e => E (g e)) x) :
    Ok P E (x.mapError g) := by
  cases x with
  | error e => exact hx
  | ok a => exact hx

end Ok

@[simp] theorem ok_bind (a : α) (f : α → Except ε β) : (Except.ok a >>= f) = f a := rfl

@[simp] theorem error_bind (e : ε) (f : α → Except ε β) :
    ((Except.error e : Except ε α) >>= f) = .error e := rfl

/-- `assert(b)`, with `e` for the fault of an assertion that fails. -/
def require (b : Bool) (e : ε) : Except ε Unit :=
  if b then .ok () else .error e

@[simp] theorem require_true (e : ε) : require true e = .ok () := rfl

theorem of_require {b : Bool} {e : ε} {u : Unit} (h : require b e = .ok u) : b = true := by
  cases b with
  | true => rfl
  | false => cases h

section

variable {R : β → Prop} {E : ε → Prop} {b : Bool} {e : ε} {f : Unit → Except ε β}

/-- Sequencing after an assertion: the rest may use what was asserted. -/
theorem Ok.require_bind (hfail : b = false → E e) (hf : b = true → Ok R E (f ())) :
    Ok R E (require b e >>= f) := by
  cases b with
  | false => exact hfail rfl
  | true => exact hf rfl

theorem Ok.passes (hb : b = true) (hf : Ok R E (f ())) : Ok R E (require b e >>= f) := by
  subst hb
  exact hf

theorem Ok.assert (hf : b = true → Ok R ⊤ (f ())) : Ok R ⊤ (require b e >>= f) :=
  Ok.require_bind (fun _ => trivial) hf

end

theorem bind_eq_ok {f : α → Except ε β} {b : β} :
    x >>= f = .ok b ↔ ∃ a, x = .ok a ∧ f a = .ok b := by
  cases x <;> simp [bind, Except.bind]

/-! ## A search that may fault

The arbiters of the model are `for` loops with a `break`: they walk a list of
candidates and stop at the first one that passes a test. The test itself may contain
an assertion. -/

/-- The first element of `l` that passes `p`. -/
def firstM (p : α → Except ε Bool) : List α → Except ε (Option α)
  | [] => pure none
  | a :: rest => do
      if ← p a then
        pure (some a)
      else
        firstM p rest

/-- If the test never stops with a fault outside `E`, neither does the search. What it
returns is the first element on which the test returned `true`: on the elements before it,
or on all elements if it returns none, the test returned `false`. -/
theorem firstM_ok {p : α → Except ε Bool} {E : ε → Prop} {l : List α} (hp : ∀ a ∈ l, Ok ⊤ E (p a)) :
    Ok (fun r => match r with
      | none => ∀ a ∈ l, p a = .ok false
      | some a => ∃ k : ℕ, l[k]? = some a ∧ p a = .ok true
        ∧ ∀ j < k, ∀ b, l[j]? = some b → p b = .ok false) E (firstM p l) := by
  induction l with
  | nil => simp [firstM]
  | cons a rest ih =>
    have ha := hp a List.mem_cons_self
    simp only [firstM]
    cases hpa : p a with
    | error e =>
      rw [hpa] at ha
      exact ha
    | ok b =>
      cases b with
      | true => exact ⟨0, rfl, hpa, fun j hj => absurd hj (Nat.not_lt_zero j)⟩
      | false =>
        refine (ih (fun x hx => hp x (List.mem_cons_of_mem _ hx))).imp ?_
        intro r hr
        cases r with
        | none =>
          intro x hx
          rcases List.mem_cons.mp hx with rfl | hx
          · exact hpa
          · exact hr x hx
        | some x =>
          obtain ⟨k, hk, hpx, hbefore⟩ := hr
          refine ⟨k + 1, hk, hpx, ?_⟩
          intro j hj c hc
          cases j with
          | zero =>
            simp only [List.getElem?_cons_zero, Option.some.injEq] at hc
            rw [← hc]
            exact hpa
          | succ j => exact hbefore j (by omega) c hc

end Bindu.Lib
