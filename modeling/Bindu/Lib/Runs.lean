/-
Machines that take one input after another.

A machine says which inputs may come in a state and what each of them does, and it may stop with
a fault. `run` takes a list of inputs and is a function, so that a concrete run can be evaluated.
The two rules at the end are all that a proof about runs needs: what every step keeps holds at the
end of every run, and what a step keeps under a condition holds at the end of every run whose
steps all meet it.
-/
import Mathlib.Tactic

namespace Bindu.Lib

open List

variable {σ ι ε : Type}

structure Machine (σ ι ε : Type) where
  enabled : σ → ι → Bool
  exec : σ → ι → Except ε σ

namespace Machine

variable {M : Machine σ ι ε} {s s' s1 : σ} {e : ι} {es : List ι}

/-- One step: an input that may come, and no fault. -/
def Step (M : Machine σ ι ε) (s : σ) (e : ι) (s' : σ) : Prop :=
  M.enabled s e = true ∧ M.exec s e = .ok s'

def step (M : Machine σ ι ε) (s : σ) (e : ι) : Option σ :=
  if M.enabled s e then (M.exec s e).toOption else none

def run (M : Machine σ ι ε) (s : σ) (es : List ι) : Option σ := es.foldlM M.step s

theorem step_eq_some : M.step s e = some s' ↔ M.Step s e s' := by
  unfold step Step
  by_cases h : M.enabled s e = true
  · rw [if_pos h]
    cases hx : M.exec s e with
    | error f => simp [Except.toOption]
    | ok a => simp [Except.toOption, h]
  · rw [if_neg h]
    simp [h]

@[simp] theorem run_nil : M.run s [] = some s := rfl

theorem run_cons_of_step (h : M.Step s e s1) (es : List ι) :
    M.run s (e :: es) = M.run s1 es := by
  rw [run, foldlM_cons, step_eq_some.mpr h]
  rfl

theorem run_append (es es' : List ι) :
    M.run s (es ++ es') = (M.run s es).bind (fun s1 => M.run s1 es') :=
  foldlM_append

theorem run_concat :
    M.run s (es ++ [e]) = some s' ↔ ∃ s1, M.run s es = some s1 ∧ M.Step s1 e s' := by
  rw [run_append, Option.bind_eq_some_iff]
  refine exists_congr (fun s1 => and_congr_right (fun _ => ?_))
  rw [← step_eq_some]
  change (M.step s1 e).bind some = some s' ↔ _
  rw [Option.bind_fun_some]

theorem run_of_prefix {es es' : List ι} (hpre : es <+: es') (h : M.run s es' = some s') :
    ∃ s1, M.run s es = some s1 := by
  obtain ⟨rest, rfl⟩ := hpre
  rw [run_append, Option.bind_eq_some_iff] at h
  obtain ⟨s1, h1, -⟩ := h
  exact ⟨s1, h1⟩

theorem exists_of_run_any (M : Machine σ ι ε) (s : σ) (es : List ι) (p : σ → Prop)
    [DecidablePred p] (h : (M.run s es).any (fun s' => decide (p s')) = true) :
    ∃ s', M.run s es = some s' ∧ p s' := by
  cases hrun : M.run s es with
  | none =>
    rw [hrun, Option.any_none] at h
    cases h
  | some s' =>
    rw [hrun] at h
    exact ⟨s', rfl, of_decide_eq_true h⟩

/-- Every step of the inputs `es` from `s` meets `C`. -/
def AllSteps (M : Machine σ ι ε) (C : σ → ι → Prop) (s : σ) (es : List ι) : Prop :=
  ∀ pre e s1, pre ++ [e] <+: es → M.run s pre = some s1 → C s1 e

theorem AllSteps.of_prefix {C : σ → ι → Prop} {es es' : List ι} (h : M.AllSteps C s es')
    (hpre : es <+: es') : M.AllSteps C s es :=
  fun pre e s1 he => h pre e s1 (he.trans hpre)

/-- A condition on the inputs alone. -/
theorem AllSteps.of_mem {C : ι → Prop} (h : ∀ e ∈ es, C e) : M.AllSteps (fun _ e => C e) s es :=
  fun pre e _ hpre _ => h e (hpre.subset (mem_append_right pre mem_cons_self))

/-- Does every step of the inputs meet `C`? -/
def checkSteps (M : Machine σ ι ε) (C : σ → ι → Prop) [∀ s e, Decidable (C s e)] :
    σ → List ι → Bool
  | _, [] => true
  | s, e :: es => decide (C s e) && (M.step s e).all (fun s' => checkSteps M C s' es)

theorem AllSteps.of_check {C : σ → ι → Prop} [∀ s e, Decidable (C s e)]
    (h : M.checkSteps C s es = true) : M.AllSteps C s es := by
  induction es generalizing s with
  | nil =>
    intro pre e s1 hpre
    exact absurd (prefix_nil.1 hpre) (append_ne_nil_of_right_ne_nil pre (by simp))
  | cons e0 es ih =>
    obtain ⟨hC, hrest⟩ := (Bool.and_eq_true _ _).mp h
    rintro (_ | ⟨e1, pre⟩) e s1 hpre hrun
    · rw [nil_append, cons_prefix_cons] at hpre
      rw [run_nil, Option.some.injEq] at hrun
      exact hrun ▸ hpre.1 ▸ of_decide_eq_true hC
    · rw [cons_append, cons_prefix_cons] at hpre
      obtain ⟨rfl, hpre⟩ := hpre
      obtain ⟨s', hstep, hrun⟩ := Option.bind_eq_some_iff.1 hrun
      rw [hstep] at hrest
      exact ih hrest pre e s1 hpre hrun

/-- **What a step keeps under a condition.** -/
theorem run_keeps_of {C : σ → ι → Prop} {I : σ → Prop}
    (hstep : ∀ s e s', I s → C s e → M.Step s e s' → I s') (hs : I s) (hC : M.AllSteps C s es)
    (h : M.run s es = some s') : I s' := by
  -- from the end of the run, so that the condition of the last step is at hand
  induction es using reverseRecOn generalizing s' with
  | nil =>
    rw [run_nil, Option.some.injEq] at h
    exact h ▸ hs
  | append_singleton es e ih =>
    obtain ⟨s1, h1, hlast⟩ := run_concat.1 h
    have hI := ih (hC.of_prefix (prefix_append es [e])) h1
    exact hstep s1 e s' hI (hC es e s1 prefix_rfl h1) hlast

/-- **What every step keeps.** -/
theorem run_keeps {I : σ → Prop} (hstep : ∀ s e s', I s → M.Step s e s' → I s') (hs : I s)
    (h : M.run s es = some s') : I s' :=
  run_keeps_of (fun s e s' hI _ => hstep s e s' hI) hs (fun _ _ _ _ _ => trivial) h

end Machine

/-! ## Other runs -/

theorem exists_ok_of_any {x : Except ε σ} {p : σ → Bool} (h : x.toOption.any p = true) :
    ∃ a, x = .ok a ∧ p a = true := by
  cases x with
  | error e => exact absurd h Bool.false_ne_true
  | ok a => exact ⟨a, rfl, h⟩

theorem reflTransGen_keeps {r : σ → σ → Prop} {I : σ → Prop} {s s' : σ}
    (hstep : ∀ s s', I s → r s s' → I s') (hs : I s) (h : Relation.ReflTransGen r s s') :
    I s' := by
  induction h with
  | refl => exact hs
  | tail _ hlast ih => exact hstep _ _ ih hlast

end Bindu.Lib
