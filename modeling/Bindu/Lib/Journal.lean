/-
A table of resources with a pool and a journal of changes.

Every slot of the table holds one resource. To change a slot, a resource is taken from the
front of the pool, put into the slot, and the change is entered in the journal together with
the resource the slot had before. The newest change can be undone: the slot gets its old
resource back and the new one goes to the pool. The oldest change can be retired: it can no
longer be undone, and its old resource goes to the pool.

Two things hold then, for every mix of these steps. Each resource is in one place: in the
pool, in a slot, or the old resource of one change of the journal. And undoing all changes
with a stamp above some number gives the table that was there before the first of them.
-/
import Mathlib.Tactic

namespace Bindu.Lib

open List

/-- A change of a slot from `old` to `new`. -/
structure Change (R : Type) where
  stamp : ℕ
  slot : ℕ
  new : R
  old : R
deriving DecidableEq

/-- The newest change stands first in `log`. -/
structure Journal (R : Type) where
  pool : List R
  table : List R
  log : List (Change R)

theorem perm_set {α : Type} {l : List α} {i : ℕ} {a b : α} (h : l[i]? = some a) :
    (a :: l.set i b).Perm (b :: l) := by
  obtain ⟨hi, rfl⟩ := List.getElem?_eq_some_iff.mp h
  have hset : (l.set i b).Perm (b :: l.eraseIdx i) := List.set_perm_cons_eraseIdx hi b
  have herase : (l[i] :: l.eraseIdx i).Perm l := List.getElem_cons_eraseIdx_perm hi
  exact ((hset.cons _).trans (List.Perm.swap _ _ _)).trans (herase.cons b)

theorem set_of_getElem? {α : Type} {l : List α} {i : ℕ} {a : α} (h : l[i]? = some a) :
    l.set i a = l := by
  obtain ⟨hi, rfl⟩ := List.getElem?_eq_some_iff.mp h
  exact List.set_getElem_self hi

namespace Journal

variable {R : Type} {j j' : Journal R} {all : List R}

/-- The kinds of steps, with stamp and slot of the change they are about. -/
inductive Move
  | take (stamp slot : ℕ)
  | undo (stamp slot : ℕ)
  | retire (stamp slot : ℕ)

def Move.slot : Move → ℕ
  | .take _ slot => slot
  | .undo _ slot => slot
  | .retire _ slot => slot

/-- One step of the journal. -/
inductive Step : Move → Journal R → Journal R → Prop
  | take {new old : R} {rest table : List R} {log : List (Change R)} (stamp slot : ℕ) :
      table[slot]? = some old →
      Step (.take stamp slot) ⟨new :: rest, table, log⟩
        ⟨rest, table.set slot new, ⟨stamp, slot, new, old⟩ :: log⟩
  | undo {pool table : List R} {log : List (Change R)} (c : Change R) :
      Step (.undo c.stamp c.slot) ⟨pool, table, c :: log⟩
        ⟨pool ++ [c.new], table.set c.slot c.old, log⟩
  | retire {pool table : List R} {log : List (Change R)} (c : Change R) :
      Step (.retire c.stamp c.slot) ⟨pool, table, log ++ [c]⟩ ⟨pool ++ [c.old], table, log⟩

/-- A number of steps, all of the kinds `P`. -/
def Steps (P : Move → Prop) : Journal R → Journal R → Prop :=
  Relation.ReflTransGen (fun j j' => ∃ m, P m ∧ Step m j j')

variable {m : Move} {P : Move → Prop}

/-- Each of the resources `all` is in one place. -/
def Conserved (all : List R) (j : Journal R) : Prop :=
  (j.pool ++ j.table ++ j.log.map Change.old).Perm all

/-- The changes of the journal lead to the table: undone one after the other, each finds its
new resource in its slot. -/
def Chained : List R → List (Change R) → Prop
  | _, [] => True
  | table, c :: log => table[c.slot]? = some c.new ∧ Chained (table.set c.slot c.old) log

theorem Chained.of_append {table : List R} {log : List (Change R)} {c : Change R}
    (h : Chained table (log ++ [c])) : Chained table log := by
  induction log generalizing table with
  | nil => trivial
  | cons d log ih => exact ⟨h.1, ih h.2⟩

theorem Step.chained (hs : Step m j j') (h : Chained j.table j.log) :
    Chained j'.table j'.log := by
  cases hs with
  | @take new old rest table log stamp slot hold =>
    obtain ⟨hslot, -⟩ := List.getElem?_eq_some_iff.mp hold
    refine ⟨by simp [hslot], ?_⟩
    simp only [List.set_set]
    rw [set_of_getElem? hold]
    exact h
  | undo c => exact h.2
  | retire c => exact h.of_append

/-- **Conservation.** A step moves resources between the three places. -/
theorem Step.conserved (hs : Step m j j') (hc : Chained j.table j.log) (h : Conserved all j) :
    Conserved all j' := by
  refine Perm.trans (Multiset.coe_eq_coe.mp ?_) h
  cases hs with
  | @take new old rest table log stamp slot hold =>
    have hset : {old} + (table.set slot new : Multiset R) = {new} + (table : Multiset R) :=
      Multiset.coe_eq_coe.mpr (perm_set hold)
    simp only [← Multiset.coe_add, map_cons, ← Multiset.cons_coe,
      ← Multiset.singleton_add]
    calc _ = (rest : Multiset R) + ({old} + (table.set slot new : Multiset R))
            + (log.map Change.old : Multiset R) := by abel
      _ = _ := by rw [hset]; abel
  | @undo pool table log c =>
    have hset : {c.new} + (table.set c.slot c.old : Multiset R) = {c.old} + (table : Multiset R) :=
      Multiset.coe_eq_coe.mpr (perm_set hc.1)
    simp only [← Multiset.coe_add, map_cons, ← Multiset.cons_coe,
      ← Multiset.singleton_add]
    calc _ = (pool : Multiset R) + ({c.new} + (table.set c.slot c.old : Multiset R))
            + (log.map Change.old : Multiset R) := by abel
      _ = _ := by rw [hset]; abel
  | @retire pool table log c =>
    simp only [← Multiset.coe_add, map_append, map_cons, map_nil, Multiset.coe_singleton]
    abel

/-! ## Rolling back -/

/-- The table after all changes with a stamp above `n` are undone. -/
def rollback (n : ℕ) : List R → List (Change R) → List R
  | table, [] => table
  | table, c :: log => if n < c.stamp then rollback n (table.set c.slot c.old) log else table

/-- Old changes do not matter. -/
theorem rollback_append {n : ℕ} {table : List R} {log : List (Change R)} {c : Change R}
    (h : c.stamp ≤ n) : rollback n table (log ++ [c]) = rollback n table log := by
  induction log generalizing table with
  | nil => simp [rollback, h]
  | cons d log ih =>
    simp only [cons_append, rollback]
    split_ifs
    · exact ih
    · rfl

/-- The moves that do not change what is left when the changes above `n` are undone: new and
undone changes above `n`, retired ones up to `n`. -/
def Move.Keeps (n : ℕ) : Move → Prop
  | .take stamp _ => n < stamp
  | .undo stamp _ => n < stamp
  | .retire stamp _ => stamp ≤ n

theorem Step.rollback {n : ℕ} (hs : Step m j j') (hm : m.Keeps n) :
    rollback n j'.table j'.log = rollback n j.table j.log := by
  cases hs with
  | @take new old rest table log stamp slot hold =>
    simp only [Journal.rollback, if_pos (show n < stamp from hm), set_set]
    rw [set_of_getElem? hold]
  | undo c => simp only [Journal.rollback, if_pos (show n < c.stamp from hm)]
  | retire c => exact (rollback_append hm).symm

theorem rollback_of_le {n : ℕ} {table : List R} {log : List (Change R)}
    (h : ∀ c ∈ log, c.stamp ≤ n) : rollback n table log = table := by
  cases log with
  | nil => rfl
  | cons c log => rw [Journal.rollback, if_neg (not_lt.mpr (h c mem_cons_self))]

/-! ## What a step leaves alone -/

theorem Step.length_table (hs : Step m j j') : j'.table.length = j.table.length := by
  cases hs with
  | take stamp slot hold => exact length_set
  | undo c => exact length_set
  | retire c => rfl

/-- A slot that the step is not about, and the changes of other slots. -/
theorem Step.frame {z : ℕ} (hs : Step m j j') (hz : m.slot ≠ z) :
    j'.table[z]? = j.table[z]? ∧ ((∀ c ∈ j.log, c.slot ≠ z) → ∀ c ∈ j'.log, c.slot ≠ z) := by
  cases hs with
  | take stamp slot hold =>
    refine ⟨getElem?_set_ne hz, fun h c hc => ?_⟩
    rcases mem_cons.mp hc with rfl | hc
    · exact hz
    · exact h c hc
  | undo c => exact ⟨getElem?_set_ne hz, fun h d hd => h d (mem_cons_of_mem _ hd)⟩
  | retire c => exact ⟨rfl, fun h d hd => h d (mem_append_left _ hd)⟩

/-- Nothing happens without a pool and a journal. -/
theorem not_step_of_idle (hpool : j.pool = []) (hlog : j.log = []) : ¬ Step m j j' := by
  intro hs
  cases hs with
  | take stamp slot hold => exact absurd hpool (cons_ne_nil _ _)
  | undo c => exact absurd hlog (cons_ne_nil _ _)
  | retire c => exact absurd hlog (by simp)

/-! ## Any number of steps -/

theorem Steps.invariant (hs : Steps P j j') (hchain : Chained j.table j.log)
    (hcons : Conserved all j) : Chained j'.table j'.log ∧ Conserved all j' := by
  induction hs with
  | refl => exact ⟨hchain, hcons⟩
  | tail _ hstep ih =>
    obtain ⟨m, -, hstep⟩ := hstep
    exact ⟨hstep.chained ih.1, hstep.conserved ih.1 ih.2⟩

theorem Steps.rollback {n : ℕ} (hs : Steps P j j') (hP : ∀ m, P m → m.Keeps n) :
    rollback n j'.table j'.log = rollback n j.table j.log := by
  induction hs with
  | refl => rfl
  | tail _ hstep ih =>
    obtain ⟨m, hm, hstep⟩ := hstep
    rw [hstep.rollback (hP m hm), ih]

theorem Steps.length_table (hs : Steps P j j') : j'.table.length = j.table.length := by
  induction hs with
  | refl => rfl
  | tail _ hstep ih =>
    obtain ⟨m, -, hstep⟩ := hstep
    rw [hstep.length_table, ih]

theorem Steps.frame {z : ℕ} (hs : Steps P j j') (hP : ∀ m, P m → m.slot ≠ z) :
    j'.table[z]? = j.table[z]? ∧ ((∀ c ∈ j.log, c.slot ≠ z) → ∀ c ∈ j'.log, c.slot ≠ z) := by
  induction hs with
  | refl => exact ⟨rfl, id⟩
  | tail _ hstep ih =>
    obtain ⟨m, hm, hstep⟩ := hstep
    obtain ⟨htable, hlog⟩ := hstep.frame (hP m hm)
    exact ⟨htable.trans ih.1, fun h => hlog (ih.2 h)⟩

theorem Steps.eq_of_idle (hs : Steps P j j') (hpool : j.pool = []) (hlog : j.log = []) :
    j' = j := by
  rcases Relation.ReflTransGen.cases_head hs with heq | ⟨k, ⟨m, -, hstep⟩, -⟩
  · exact heq.symm
  · exact absurd hstep (not_step_of_idle hpool hlog)

end Journal

end Bindu.Lib
