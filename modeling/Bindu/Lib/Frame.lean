/-
Frames: what a computation on a state leaves alone.

`Keeps R π s x` says that the computation `x`, started in the state `s`, ends in a state related
to `s` by `R`, if it ends at all. `π` picks the state out of what `x` returns. `R` is a preorder,
as "agrees with `s` on these fields" is, so the rules compose: a sequence keeps what its parts
keep, and so does a loop.
-/
import Bindu.Lib.Fallible

namespace Bindu.Lib

variable {ε σ τ α β : Type} {R : σ → σ → Prop}

/-- The relation of a frame that is one field, or a few: `f` is as it was. -/
def Agrees (f : σ → τ) (s s' : σ) : Prop := f s' = f s

instance (f : σ → τ) : Std.Refl (Agrees f) := ⟨fun _ => rfl⟩

instance (f : σ → τ) : IsTrans σ (Agrees f) := ⟨fun _ _ _ h h' => h'.trans h⟩

def Keeps (R : σ → σ → Prop) (π : α → σ) (s : σ) (x : Except ε α) : Prop :=
  Ok (fun a => R s (π a)) (fun _ => True) x

namespace Keeps

variable {π : α → σ} {ρ : β → σ} {s : σ} {x : Except ε α}

theorem elim {a : α} (hx : Keeps R π s x) (h : x = .ok a) : R s (π a) := by
  rw [h] at hx
  exact hx

theorem pure {a : α} (h : R s (π a)) : Keeps R π s (Pure.pure a : Except ε α) := h

theorem throw (e : ε) : Keeps R π s (MonadExcept.throw e : Except ε α) := trivial

theorem skip {f : α → Except ε β} (hf : ∀ a, Keeps R ρ s (f a)) : Keeps R ρ s (x >>= f) :=
  (Ok.triv x).bind (fun a _ => hf a)

/-- The rest may use what the first part returned. -/
theorem returned {f : α → Except ε β} (hf : ∀ a, x = .ok a → Keeps R ρ s (f a)) :
    Keeps R ρ s (x >>= f) := by
  cases x with
  | error e => trivial
  | ok a => exact hf a rfl

variable [IsTrans σ R]

theorem bind {f : α → Except ε β} (hx : Keeps R π s x) (hf : ∀ a, Keeps R ρ (π a) (f a)) :
    Keeps R ρ s (x >>= f) :=
  Ok.bind hx (fun a ha => (hf a).imp (fun _ hb => IsTrans.trans _ _ _ ha hb))

theorem after (s1 : σ) (h : R s s1) (hx : Keeps R π s1 x) : Keeps R π s x :=
  Ok.imp hx (fun _ ha => IsTrans.trans _ _ _ h ha)

variable [Std.Refl R]

theorem foldlM {f : σ → α → Except ε σ} (hf : ∀ s a, Keeps R id s (f s a)) (l : List α) (s : σ) :
    Keeps R id s (l.foldlM f s) :=
  Ok.foldlM_inv (R s) (Std.Refl.refl s)
    (fun a _ s1 hs => (hf s1 a).imp (fun _ h => IsTrans.trans _ _ _ hs h))

end Keeps

end Bindu.Lib
