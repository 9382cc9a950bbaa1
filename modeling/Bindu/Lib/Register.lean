/-
Atomic registers: histories of timed reads and writes of one location, and what it means that a
history could have come from a single copy of the location.

An operation takes from its start to its completion, or has not completed. A history is
linearizable when its operations can be put in one sequence in which every completed read returns
the value of the last write before it (an initial value if there is none) and which respects real
time: an operation that completes no later than another one starts comes before it.

What a checker of such histories needs is the view of one read, `Linearizes.read_cases`: either the
value comes from a write that no other write separates from the read, or no write comes before the
read at all.
-/
import Mathlib.Tactic

namespace Bindu.Lib

open List

variable {V : Type}

/-- A read or a write of a register. The data of a read means nothing before it completes. -/
structure RegOp (V : Type) where
  id : ℕ
  write : Bool
  start : ℕ
  complete : Option ℕ
  data : V
  deriving DecidableEq

/-- `a` completes no later than `b` starts. -/
def RegOp.Precedes (a b : RegOp V) : Prop := ∃ c, a.complete = some c ∧ c ≤ b.start

/-- The value of the register after these operations. -/
def lastWritten (v0 : V) (ops : List (RegOp V)) : V :=
  ops.foldl (fun v o => if o.write then o.data else v) v0

/-- The operations, one after the other in this order, are those of a register with initial value
`v0`, and real time is respected. -/
structure Linearizes (v0 : V) (order : List (RegOp V)) : Prop where
  reads : ∀ before o after, order = before ++ o :: after → o.write = false → o.complete ≠ none →
    o.data = lastWritten v0 before
  realTime : order.Pairwise (fun a b => ¬ b.Precedes a)

/-- The operations can be put in such an order. -/
def Linearizable (ops : List (RegOp V)) : Prop :=
  ∃ v0 order, order.Perm ops ∧ Linearizes v0 order

theorem lastWritten_append (v0 : V) (l l' : List (RegOp V)) :
    lastWritten v0 (l ++ l') = lastWritten (lastWritten v0 l) l' :=
  foldl_append ..

theorem lastWritten_of_reads (v0 : V) {l : List (RegOp V)} (h : ∀ x ∈ l, x.write = false) :
    lastWritten v0 l = v0 := by
  induction l with
  | nil => rfl
  | cons x l ih =>
    have hx := h x mem_cons_self
    rw [lastWritten, foldl_cons, hx, if_neg (by simp)]
    exact ih (fun y hy => h y (mem_cons_of_mem _ hy))

theorem exists_last_write (l : List (RegOp V)) :
    (∀ x ∈ l, x.write = false)
      ∨ ∃ l1 w l2, l = l1 ++ w :: l2 ∧ w.write = true ∧ ∀ x ∈ l2, x.write = false := by
  induction l with
  | nil => exact .inl (fun x hx => absurd hx not_mem_nil)
  | cons x l ih =>
    rcases ih with hreads | ⟨l1, w, l2, rfl, hw, hl2⟩
    · cases hx : x.write with
      | true => exact .inr ⟨[], x, l, rfl, hx, hreads⟩
      | false =>
        refine .inl (fun y hy => ?_)
        rcases mem_cons.mp hy with rfl | hy
        · exact hx
        · exact hreads y hy
    · exact .inr ⟨x :: l1, w, l2, rfl, hw, hl2⟩

theorem lastWritten_of_last (v0 : V) {l1 l2 : List (RegOp V)} {w : RegOp V}
    (hw : w.write = true) (hreads : ∀ x ∈ l2, x.write = false) :
    lastWritten v0 (l1 ++ w :: l2) = w.data := by
  rw [lastWritten_append, lastWritten, foldl_cons, if_pos hw]
  exact lastWritten_of_reads w.data hreads

namespace Linearizes

variable {v0 : V} {order : List (RegOp V)}

theorem nil (v0 : V) : Linearizes v0 ([] : List (RegOp V)) where
  reads before o after h := absurd h (by simp)
  realTime := Pairwise.nil

/-- An operation goes in front: a read that returns the initial value, or a write that replaces
it. -/
theorem cons {o : RegOp V} (hread : o.write = false → o.complete ≠ none → o.data = v0)
    (htime : ∀ x ∈ order, ¬ x.Precedes o)
    (h : Linearizes (if o.write then o.data else v0) order) : Linearizes v0 (o :: order) := by
  constructor
  · intro before x after heq hx hdone
    cases before with
    | nil =>
      obtain ⟨rfl, -⟩ := cons.inj heq
      exact hread hx hdone
    | cons y before =>
      rw [cons_append] at heq
      obtain ⟨rfl, hrest⟩ := cons.inj heq
      exact h.reads before x after hrest hx hdone
  · exact pairwise_cons.mpr ⟨htime, h.realTime⟩

/-- `w` is where `r` has its value from: no other write comes between, and an earlier read `l`
either comes before `w` or returned the same value, with no write behind it either. -/
structure ReadsFrom (order : List (RegOp V)) (r w : RegOp V) : Prop where
  mem : w ∈ order
  write : w.write = true
  data : w.data = r.data
  started : ¬ r.Precedes w
  last : ∀ x ∈ order, x.write = true → x ≠ w → x.Precedes r → ¬ w.Precedes x
  earlier : ∀ l ∈ order, l.write = false → l.complete ≠ none → l.Precedes r → l ≠ r → ¬ w.Precedes l
      ∨ (l.data = r.data ∧ ∀ x ∈ order, x.write = true → x.Precedes r → ¬ l.Precedes x)

/-- No write comes before `r`. -/
structure ReadsInitial (order : List (RegOp V)) (r : RegOp V) : Prop where
  noWrite : ∀ x ∈ order, x.write = true → ¬ x.Precedes r
  earlier : ∀ l ∈ order, l.write = false → l.complete ≠ none → l.Precedes r → l ≠ r →
    l.data = r.data

/-- **The view of one read.** -/
theorem read_cases (h : Linearizes v0 order) {r : RegOp V} (hr : r ∈ order)
    (hread : r.write = false) (hdone : r.complete ≠ none) :
    (∃ w, ReadsFrom order r w) ∨ ReadsInitial order r := by
  obtain ⟨before, after, horder⟩ := append_of_mem hr
  have hdata := h.reads before r after horder hread hdone
  have htime := h.realTime
  rw [horder, pairwise_append, pairwise_cons] at htime
  obtain ⟨htb, ⟨hafter, -⟩, hcross⟩ := htime
  -- what precedes the read in time precedes it in the order
  have hbefore : ∀ x ∈ order, x ≠ r → x.Precedes r → x ∈ before := by
    intro x hx hne hxr
    rw [horder, mem_append, mem_cons] at hx
    rcases hx with hx | rfl | hx
    · exact hx
    · exact absurd rfl hne
    · exact absurd hxr (hafter x hx)
  have hwr : ∀ x : RegOp V, x.write = true → x ≠ r := by
    rintro x hx rfl
    exact Bool.false_ne_true (hread.symm.trans hx)
  rcases exists_last_write before with hreads | ⟨l1, w, l2, rfl, hw, hl2⟩
  · -- the value is the initial one, and so is that of every earlier read
    refine .inr ⟨fun x hx hxw hxr => ?_, fun l hl hlread hldone hlr hne => ?_⟩
    · have := hreads x (hbefore x hx (hwr x hxw) hxr)
      exact Bool.false_ne_true (this.symm.trans hxw)
    · obtain ⟨l1, l2, rfl⟩ := append_of_mem (hbefore l hl hne hlr)
      have hl := h.reads l1 l (l2 ++ r :: after) (by simp [horder]) hlread hldone
      rw [hl, hdata, lastWritten_of_reads v0 hreads]
      exact lastWritten_of_reads v0 (fun x hx => hreads x (mem_append_left _ hx))
  · rw [lastWritten_of_last v0 hw hl2] at hdata
    rw [pairwise_append, pairwise_cons] at htb
    obtain ⟨-, ⟨hbehind, -⟩, hcross'⟩ := htb
    -- a write before the read is `w` or comes before `w`
    have hlast : ∀ x ∈ order, x.write = true → x.Precedes r → x = w ∨ x ∈ l1 := by
      intro x hx hxw hxr
      have hmem := hbefore x hx (hwr x hxw) hxr
      rw [mem_append, mem_cons] at hmem
      rcases hmem with hmem | rfl | hmem
      · exact .inr hmem
      · exact .inl rfl
      · exact absurd ((hl2 x hmem).symm.trans hxw) Bool.false_ne_true
    have hmid : w ∈ l1 ++ w :: l2 := mem_append_right _ mem_cons_self
    refine .inl ⟨w, ?_, hw, hdata.symm, hcross w hmid r mem_cons_self, ?_, ?_⟩
    · rw [horder]
      exact mem_append_left _ hmid
    · intro x hx hxw hne hxr
      exact hcross' x ((hlast x hx hxw hxr).resolve_left hne) w mem_cons_self
    · intro l hl hlread hldone hlr hne
      have hmem := hbefore l hl hne hlr
      rw [mem_append, mem_cons] at hmem
      rcases hmem with hmem | rfl | hmem
      · exact .inl (hcross' l hmem w mem_cons_self)
      · exact absurd (hlread.symm.trans hw) Bool.false_ne_true
      · -- `l` is between `w` and the read
        refine .inr ⟨?_, fun x hx hxw hxr => ?_⟩
        · obtain ⟨l3, l4, rfl⟩ := append_of_mem hmem
          have hl := h.reads (l1 ++ w :: l3) l (l4 ++ r :: after) (by simp [horder]) hlread hldone
          rw [hl, hdata]
          exact lastWritten_of_last v0 hw (fun x hx => hl2 x (mem_append_left _ hx))
        · rcases hlast x hx hxw hxr with rfl | hx
          · exact hbehind l hmem
          · exact hcross' x hx l (mem_cons_of_mem _ hmem)

end Linearizes

end Bindu.Lib
