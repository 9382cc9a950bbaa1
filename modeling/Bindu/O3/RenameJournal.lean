/-
The rename stage as a journal for every class of registers.

For one class the free list is the pool of a journal, the rename map its table, and the
entries of the history buffer that really changed the map its log. Renaming a destination
takes a register, squashing an entry undoes the newest change, committing one retires the
oldest. The functions of the stage are sequences of such steps in all classes at once, and the
assertions they pass on the way follow from the conservation of registers.

The switch of the vector mode is no step of this kind and is treated apart.
-/
import Bindu.Lib.Journal
import Bindu.O3.Rename

open Bindu.Lib List

namespace Bindu.O3

open RenameState

/-! ## Journals -/

/-- The entry changed the map of class `c`. -/
def RenameHistory.IsChange (c : RegClass) (e : RenameHistory) : Prop :=
  e.archReg.regClass = c ∧ e.newPhysReg ≠ e.prevPhysReg

instance (c : RegClass) (e : RenameHistory) : Decidable (e.IsChange c) :=
  inferInstanceAs (Decidable (_ ∧ _))

def RenameHistory.change (e : RenameHistory) : Change PhysRegIdPtr :=
  ⟨e.instSeqNum, e.archReg.flatIndex, e.newPhysReg, e.prevPhysReg⟩

/-- The changes of the map of class `c`. -/
def logOf (c : RegClass) (hb : List RenameHistory) : List (Change PhysRegIdPtr) :=
  (hb.filter (fun e => e.IsChange c)).map RenameHistory.change

def RenameState.journal (s : RenameState) (c : RegClass) : Journal PhysRegIdPtr :=
  ⟨s.freeList c, s.renameMap c, logOf c s.historyBuffer⟩

section Log

variable {c : RegClass} {e : RenameHistory} {hb : List RenameHistory}

theorem logOf_cons_of_isChange (h : e.IsChange c) : logOf c (e :: hb) = e.change :: logOf c hb := by
  rw [logOf, filter_cons_of_pos (by simpa using h)]
  rfl

theorem logOf_cons_of_not (h : ¬ e.IsChange c) : logOf c (e :: hb) = logOf c hb := by
  rw [logOf, filter_cons_of_neg (by simpa using h)]
  rfl

theorem logOf_concat_of_isChange (h : e.IsChange c) :
    logOf c (hb ++ [e]) = logOf c hb ++ [e.change] := by
  rw [logOf, filter_append, map_append]
  congr 1
  exact logOf_cons_of_isChange h

theorem logOf_concat_of_not (h : ¬ e.IsChange c) : logOf c (hb ++ [e]) = logOf c hb := by
  rw [logOf, filter_append, map_append]
  rw [show (([e].filter (fun e => e.IsChange c)).map RenameHistory.change) = [] from
    logOf_cons_of_not h, append_nil]
  rfl

theorem stamp_of_mem_logOf {ch : Change PhysRegIdPtr} (h : ch ∈ logOf c hb) :
    ∃ e ∈ hb, e.IsChange c ∧ ch = e.change := by
  obtain ⟨e, he, rfl⟩ := mem_map.mp h
  rw [mem_filter] at he
  exact ⟨e, he.1, by simpa using he.2, rfl⟩

end Log

/-- What holds of the stage between two calls. -/
structure Inv (m : Machine) (s : RenameState) : Prop where
  conserved : ∀ c, Active s.vecMode c → (s.journal c).Conserved (m.getRegIds c)
  chained : ∀ c, Active s.vecMode c → Journal.Chained (s.journal c).table (s.journal c).log
  idle : ∀ c, ¬ Active s.vecMode c → (s.journal c).pool = [] ∧ (s.journal c).log = []
  length : ∀ c, (s.journal c).table.length = m.numRegs c
  zero : m.ZeroReg < m.NumIntRegs →
    (s.journal .IntReg).table[m.ZeroReg]? = some (.reg .IntReg m.ZeroReg)
  zeroLog : ∀ ch ∈ (s.journal .IntReg).log, ch.slot ≠ m.ZeroReg
  sorted : s.historyBuffer.Pairwise (fun e e' => e'.instSeqNum ≤ e.instSeqNum)

/-- The state moves by steps of the kinds `P` in all classes, and the zero register keeps its
mapping. -/
structure Moved (m : Machine) (P : Journal.Move → Prop) (s s' : RenameState) : Prop where
  mode : s'.vecMode = s.vecMode
  steps : ∀ c, Journal.Steps (fun mv => P mv ∧ (c = .IntReg → mv.slot ≠ m.ZeroReg))
    (s.journal c) (s'.journal c)

variable {m : Machine} {s s' s'' : RenameState} {P : Journal.Move → Prop}

theorem Moved.of_journal_eq (hmode : s'.vecMode = s.vecMode)
    (h : ∀ c, s'.journal c = s.journal c) : Moved m P s s' :=
  ⟨hmode, fun c => by rw [h c]; exact Relation.ReflTransGen.refl⟩

theorem Moved.trans (h : Moved m P s s') (h' : Moved m P s' s'') : Moved m P s s'' :=
  ⟨h'.mode.trans h.mode, fun c => (h.steps c).trans (h'.steps c)⟩

/-- Class `c` gets another free list and map, and the stage another history. -/
def RenameState.setClass (s : RenameState) (c : RegClass) (pool table : List PhysRegIdPtr)
    (hb : List RenameHistory) : RenameState :=
  { (s.setFree c pool).setMap c table with historyBuffer := hb }

theorem Moved.setClass {c : RegClass} {mv : Journal.Move} {pool table : List PhysRegIdPtr}
    {hb : List RenameHistory} (hP : P mv) (hzero : c = .IntReg → mv.slot ≠ m.ZeroReg)
    (hstep : Journal.Step mv (s.journal c) ⟨pool, table, logOf c hb⟩)
    (hother : ∀ c' ≠ c, logOf c' hb = logOf c' s.historyBuffer) :
    Moved m P s (s.setClass c pool table hb) := by
  refine ⟨rfl, fun c' => ?_⟩
  by_cases hc : c' = c
  · subst hc
    refine Relation.ReflTransGen.single ⟨mv, ⟨hP, hzero⟩, ?_⟩
    simpa [journal, RenameState.setClass, setMap, setFree] using hstep
  · have hsame : (s.setClass c pool table hb).journal c' = s.journal c' := by
      simp [journal, RenameState.setClass, setMap, setFree, hc, hother c' hc]
    rw [hsame]
    exact Relation.ReflTransGen.refl

/-- **The invariant is kept by every journal step.** -/
theorem Inv.moved (h : Inv m s) (hm : Moved m P s s')
    (hsorted : s'.historyBuffer.Pairwise (fun e e' => e'.instSeqNum ≤ e.instSeqNum)) :
    Inv m s' := by
  have hframe := (hm.steps .IntReg).frame (fun mv hmv => hmv.2 rfl)
  refine ⟨fun c hc => ?_, fun c hc => ?_, fun c hc => ?_, fun c => ?_, fun hz => ?_, ?_, hsorted⟩
  · rw [hm.mode] at hc
    exact ((hm.steps c).invariant (h.chained c hc) (h.conserved c hc)).2
  · rw [hm.mode] at hc
    exact ((hm.steps c).invariant (h.chained c hc) (h.conserved c hc)).1
  · rw [hm.mode] at hc
    obtain ⟨hpool, hlog⟩ := h.idle c hc
    rw [(hm.steps c).eq_of_idle hpool hlog]
    exact ⟨hpool, hlog⟩
  · rw [(hm.steps c).length_table]
    exact h.length c
  · rw [hframe.1]
    exact h.zero hz
  · exact hframe.2 h.zeroLog

variable {c : RegClass} {p : PhysRegIdPtr} {n : ℕ}

theorem mem_getRegIds (h : p ∈ m.getRegIds c) :
    ∃ i, p = .reg c i := by
  obtain ⟨i, -, rfl⟩ := mem_map.mp h
  exact ⟨i, rfl⟩

theorem nodup_getRegIds (m : Machine) (c : RegClass) : (m.getRegIds c).Nodup :=
  Nodup.map (fun i j h => by cases h; rfl) nodup_range'

/-- An entry that changed a map belongs to a class in use. -/
theorem Inv.active (h : Inv m s) {ch : Change PhysRegIdPtr}
    (hch : ch ∈ (s.journal c).log) : Active s.vecMode c := by
  by_contra hc
  rw [(h.idle c hc).2] at hch
  cases hch

theorem Inv.old_class (h : Inv m s) {ch : Change PhysRegIdPtr}
    (hch : ch ∈ (s.journal c).log) : ∃ i, ch.old = .reg c i := by
  have hmem : ch.old ∈ m.getRegIds c := by
    refine (h.conserved c (h.active hch)).mem_iff.mp ?_
    exact mem_append_right _ (mem_map_of_mem hch)
  exact mem_getRegIds hmem

theorem Inv.mem_table_class (h : Inv m s) (hc : Active s.vecMode c) (hp : p ∈ s.renameMap c) : ∃ i, p = .reg c i := by
  have hmem : p ∈ m.getRegIds c := by
    refine (h.conserved c hc).mem_iff.mp ?_
    exact mem_append_left _ (mem_append_right _ hp)
  exact mem_getRegIds hmem

theorem Inv.mem_pool_class (h : Inv m s) (hc : Active s.vecMode c) (hp : p ∈ s.freeList c) : ∃ i, p = .reg c i := by
  have hmem : p ∈ m.getRegIds c := by
    refine (h.conserved c hc).mem_iff.mp ?_
    exact mem_append_left _ (mem_append_left _ hp)
  exact mem_getRegIds hmem

/-! ## Squashing -/

/-- Changes with a sequence number above `n` are undone. -/
def undoes (n : ℕ) (mv : Journal.Move) : Prop := ∃ stamp slot, n < stamp ∧ mv = .undo stamp slot

theorem setEntry_ok {i k : ℕ} (hc : Active s.vecMode c)
    (hlt : i < (s.renameMap c).length) :
    setEntry ⟨c, i⟩ (.reg c k) s = .ok (s.setMap c ((s.renameMap c).set i (.reg c k))) := by
  obtain ⟨hmisc, hfull, helem⟩ := hc
  rw [setEntry, if_neg hmisc, if_neg (by simp [PhysRegIdPtr.classValue]), if_neg ?_,
    if_neg (not_le.mpr hlt)]
  · rfl
  · rintro (⟨h, hne⟩ | ⟨h, hne⟩)
    · exact hne (hfull h)
    · exact hne (helem h)

theorem addReg_ok {k : ℕ} (hc : c ≠ .MiscReg) :
    addReg (.reg c k) s = .ok (s.setFree c (s.freeList c ++ [.reg c k])) := by
  rw [addReg, if_neg hc]
  rfl

theorem undoEntry_spec (h : Inv m s) {e : RenameHistory} {rest : List RenameHistory}
    (hhb : s.historyBuffer = e :: rest) (hn : n < e.instSeqNum) :
    ∃ s', undoEntry e rest s = .ok s' ∧ Moved m (undoes n) s s' ∧ s'.historyBuffer = rest := by
  by_cases hne : e.newPhysReg = e.prevPhysReg
  · -- nothing was renamed
    refine ⟨{ s with historyBuffer := rest }, ?_, Moved.of_journal_eq rfl (fun c => ?_), rfl⟩
    · rw [undoEntry, if_neg (not_not.mpr hne)]
      rfl
    · rw [journal, journal, hhb, logOf_cons_of_not (fun h => h.2 hne)]
  · obtain ⟨seq, ⟨c, i⟩, new, prev⟩ := e
    have hlog : logOf c s.historyBuffer = ⟨seq, i, new, prev⟩ :: logOf c rest := by
      rw [hhb]
      exact logOf_cons_of_isChange ⟨rfl, hne⟩
    have hmem : (⟨seq, i, new, prev⟩ : Change PhysRegIdPtr) ∈ (s.journal c).log := by
      rw [journal, hlog]
      exact mem_cons_self
    have hc := h.active hmem
    have hnew : (s.renameMap c)[i]? = some new := by
      have := h.chained c hc
      rw [journal, hlog] at this
      exact this.1
    obtain ⟨k, hk⟩ := h.old_class hmem
    obtain ⟨k', hk'⟩ := h.mem_table_class hc (List.mem_of_getElem? hnew)
    obtain ⟨hlt, -⟩ := List.getElem?_eq_some_iff.mp hnew
    subst hk hk'
    refine ⟨s.setClass c (s.freeList c ++ [.reg c k']) ((s.renameMap c).set i (.reg c k)) rest, ?_,
      .setClass ⟨seq, i, hn, rfl⟩ ?_ ?_ (fun c' hcc => ?_), rfl⟩
    · rw [undoEntry, if_pos hne, setEntry_ok hc hlt, ok_bind, addReg_ok hc.1, ok_bind]
      rfl
    · rintro rfl
      exact h.zeroLog _ hmem
    · rw [journal, hlog]
      exact .undo (⟨seq, i, .reg c k', .reg c k⟩ : Change PhysRegIdPtr)
    · rw [hhb, logOf_cons_of_not (fun h => hcc h.1.symm)]

/-- **Squashing.** The loop undoes the changes of the squashed instructions and stops without a
fault. -/
theorem squashLoop_spec (n : ℕ) (hb : List RenameHistory) (h : Inv m s)
    (hhb : s.historyBuffer = hb) :
    ∃ s', squashLoop n hb s = .ok s' ∧ Moved m (undoes n) s s' ∧ Inv m s'
      ∧ ∀ e ∈ s'.historyBuffer, e ∈ s.historyBuffer ∧ e.instSeqNum ≤ n := by
  induction hb generalizing s with
  | nil =>
    refine ⟨s, rfl, .of_journal_eq rfl (fun _ => rfl), h, fun e he => ?_⟩
    rw [hhb] at he
    cases he
  | cons e rest ih =>
    have hsorted := h.sorted
    rw [hhb, pairwise_cons] at hsorted
    by_cases hn : n < e.instSeqNum
    · obtain ⟨s1, hs1, hmoved1, hhb1⟩ := undoEntry_spec h hhb hn
      have hinv1 : Inv m s1 := h.moved hmoved1 (by rw [hhb1]; exact hsorted.2)
      obtain ⟨s2, hs2, hmoved2, hinv2, hle⟩ := ih hinv1 hhb1
      refine ⟨s2, ?_, hmoved1.trans hmoved2, hinv2, fun e' he' => ?_⟩
      · rw [squashLoop, if_pos hn, hs1, ok_bind]
        exact hs2
      · have := hle e' he'
        rw [hhb1] at this
        rw [hhb]
        exact ⟨mem_cons_of_mem _ this.1, this.2⟩
    · -- the entries behind are older
      refine ⟨s, ?_, .of_journal_eq rfl (fun _ => rfl), h, fun e' he' => ?_⟩
      · rw [squashLoop, if_neg hn]
        rfl
      · rw [not_lt] at hn
        refine ⟨he', ?_⟩
        rw [hhb] at he'
        rcases mem_cons.mp he' with rfl | he'
        · exact hn
        · exact (hsorted.1 e' he').trans hn

/-! ## Committing -/

/-- Changes with a sequence number up to `n` are retired. -/
def retires (n : ℕ) (mv : Journal.Move) : Prop :=
  ∃ stamp slot, stamp ≤ n ∧ mv = .retire stamp slot

theorem retireEntry_spec (h : Inv m s) {e : RenameHistory} {front : List RenameHistory}
    (hhb : s.historyBuffer = front ++ [e]) (hn : e.instSeqNum ≤ n) :
    ∃ s', retireEntry e front s = .ok s' ∧ Moved m (retires n) s s' ∧ s'.historyBuffer = front := by
  by_cases hne : e.newPhysReg = e.prevPhysReg
  · refine ⟨{ s with historyBuffer := front }, ?_, Moved.of_journal_eq rfl (fun c => ?_), rfl⟩
    · rw [retireEntry, if_neg (not_not.mpr hne)]
      rfl
    · rw [journal, journal, hhb, logOf_concat_of_not (fun h => h.2 hne)]
  · obtain ⟨seq, ⟨c, i⟩, new, prev⟩ := e
    have hlog : logOf c s.historyBuffer = logOf c front ++ [⟨seq, i, new, prev⟩] := by
      rw [hhb]
      exact logOf_concat_of_isChange ⟨rfl, hne⟩
    have hmem : (⟨seq, i, new, prev⟩ : Change PhysRegIdPtr) ∈ (s.journal c).log := by
      rw [journal, hlog]
      exact mem_concat_self
    obtain ⟨k, hk⟩ := h.old_class hmem
    subst hk
    refine ⟨s.setClass c (s.freeList c ++ [.reg c k]) (s.renameMap c) front, ?_,
      .setClass ⟨seq, i, hn, rfl⟩ ?_ ?_ (fun c' hcc => ?_), rfl⟩
    · rw [retireEntry, if_pos hne, addReg_ok (h.active hmem).1, ok_bind]
      rw [setClass, setMap, setFree, Function.update_eq_self]
      rfl
    · rintro rfl
      exact h.zeroLog _ hmem
    · rw [journal, hlog]
      exact .retire (⟨seq, i, new, .reg c k⟩ : Change PhysRegIdPtr)
    · rw [hhb, logOf_concat_of_not (fun h => hcc h.1.symm)]

/-- **Committing.** The loop retires the changes of the committed instructions and stops
without a fault. -/
theorem commitLoop_spec (n : ℕ) (hb : List RenameHistory) (h : Inv m s)
    (hhb : s.historyBuffer = hb.reverse) :
    ∃ s', commitLoop n hb s = .ok s' ∧ Moved m (retires n) s s' ∧ Inv m s'
      ∧ ∀ e ∈ s'.historyBuffer, e ∈ s.historyBuffer := by
  induction hb generalizing s with
  | nil => exact ⟨s, rfl, .of_journal_eq rfl (fun _ => rfl), h, fun _ he => he⟩
  | cons e rest ih =>
    rw [reverse_cons] at hhb
    have hsorted := h.sorted
    rw [hhb, pairwise_append] at hsorted
    by_cases hn : e.instSeqNum ≤ n
    · obtain ⟨s1, hs1, hmoved1, hhb1⟩ := retireEntry_spec h hhb hn
      have hinv1 : Inv m s1 := h.moved hmoved1 (by rw [hhb1]; exact hsorted.1)
      obtain ⟨s2, hs2, hmoved2, hinv2, hsub⟩ := ih hinv1 hhb1
      refine ⟨s2, ?_, hmoved1.trans hmoved2, hinv2, fun e' he' => ?_⟩
      · rw [commitLoop, if_pos hn, hs1, ok_bind]
        exact hs2
      · have := hsub e' he'
        rw [hhb1] at this
        rw [hhb]
        exact mem_append_left _ this
    · refine ⟨s, ?_, .of_journal_eq rfl (fun _ => rfl), h, fun _ he => he⟩
      rw [commitLoop, if_neg hn]
      rfl

theorem removeFromHistory_spec (n : ℕ) (h : Inv m s) :
    ∃ s', removeFromHistory n s = .ok s' ∧ Moved m (retires n) s s' ∧ Inv m s'
      ∧ ∀ e ∈ s'.historyBuffer, e ∈ s.historyBuffer := by
  rw [removeFromHistory]
  split
  · exact ⟨s, rfl, .of_journal_eq rfl (fun _ => rfl), h, fun _ he => he⟩
  · split_ifs
    · exact ⟨s, rfl, .of_journal_eq rfl (fun _ => rfl), h, fun _ he => he⟩
    · exact commitLoop_spec n _ h (reverse_reverse _).symm

/-! ## Renaming -/

/-- Registers are taken for the instruction with sequence number `n`. -/
def takes (n : ℕ) (mv : Journal.Move) : Prop := ∃ slot, mv = .take n slot

/-- The destinations of an instruction are registers of the machine. -/
def Machine.Valid (m : Machine) (d : RegId) : Prop :=
  d.regClass ≠ .MiscReg → d.flatIndex < m.numRegs d.regClass

instance (m : Machine) (d : RegId) : Decidable (m.Valid d) :=
  inferInstanceAs (Decidable (_ → _))

variable {d : RegId}

theorem rename_of_active (hc : Active s.vecMode d.regClass) :
    rename m d s = simpleRename m d s := by
  obtain ⟨c, i⟩ := d
  obtain ⟨hmisc, hfull, helem⟩ := hc
  cases c with
  | VecReg => simp only [rename, if_pos (hfull rfl)]
  | VecElem => simp only [rename, if_pos (helem rfl)]
  | MiscReg => exact absurd rfl hmisc
  | IntReg => rfl
  | FloatReg => rfl
  | VecPredReg => rfl
  | CCReg => rfl

/-- Only an integer register can be the zero register of its map. -/
theorem eq_zeroReg_iff :
    d = m.zeroReg d.regClass ↔ d.regClass = .IntReg ∧ d.flatIndex = m.ZeroReg := by
  obtain ⟨c, i⟩ := d
  cases c <;> simp [Machine.zeroReg]

theorem Inv.pool_ne_table (h : Inv m s) (hc : Active s.vecMode c)
    {new prev : PhysRegIdPtr} {i : ℕ} (hnew : new ∈ s.freeList c)
    (hprev : (s.renameMap c)[i]? = some prev) : new ≠ prev := by
  have hnodup : (s.freeList c ++ s.renameMap c ++ (logOf c s.historyBuffer).map Change.old).Nodup :=
    (h.conserved c hc).nodup_iff.mpr (nodup_getRegIds m c)
  rintro rfl
  rw [nodup_append, nodup_append] at hnodup
  exact hnodup.1.2.2 new hnew new (mem_of_getElem? hprev) rfl

theorem moved_push {e : RenameHistory} (he : e.newPhysReg = e.prevPhysReg) :
    Moved m P s { s with historyBuffer := e :: s.historyBuffer } := by
  refine .of_journal_eq rfl (fun c => ?_)
  rw [journal, journal, logOf_cons_of_not (fun h => h.2 he)]

/-- A destination of a class in use other than the zero register gets the first free
register. -/
theorem simpleRename_ok {new prev : PhysRegIdPtr} {rest : List PhysRegIdPtr}
    (hprev : (s.renameMap d.regClass)[d.flatIndex]? = some prev)
    (hzero : d ≠ m.zeroReg d.regClass) (hfree : s.freeList d.regClass = new :: rest) :
    simpleRename m d s = .ok ((new, prev), (s.setFree d.regClass rest).setMap d.regClass
      ((s.renameMap d.regClass).set d.flatIndex new)) := by
  simp only [simpleRename, hprev, if_pos hzero, hfree]
  rfl

theorem simpleRename_zeroReg {prev : PhysRegIdPtr}
    (hprev : (s.renameMap d.regClass)[d.flatIndex]? = some prev)
    (hzero : d = m.zeroReg d.regClass) (hp : m.isZeroReg prev = true) :
    simpleRename m d s = .ok ((prev, prev), s) := by
  simp only [simpleRename, hprev]
  rw [if_neg (not_not.mpr hzero), if_pos hp]
  rfl

/-- A destination is renamed: the stage does not stop, and what is left on the free lists is
enough for the other destinations. -/
theorem renameDestReg_spec (h : Inv m s) (hn : ∀ e ∈ s.historyBuffer, e.instSeqNum ≤ n)
    (hvalid : m.Valid d) (hfree : d.regClass ≠ .MiscReg → s.freeList d.regClass ≠ []) :
    ∃ s', renameDestReg m n s d = .ok s' ∧ Moved m (takes n) s s' ∧ Inv m s'
      ∧ (∀ e ∈ s'.historyBuffer, e.instSeqNum ≤ n)
      ∧ ∀ c, (s.freeList c).length
        ≤ (s'.freeList c).length + (if d.regClass = c then 1 else 0) := by
  -- the history stays sorted, whatever the new entry says about registers
  have hsorted : ∀ new prev, (⟨n, d, new, prev⟩ :: s.historyBuffer : List RenameHistory).Pairwise
      (fun e e' => e'.instSeqNum ≤ e.instSeqNum) :=
    fun new prev => pairwise_cons.mpr ⟨hn, h.sorted⟩
  have hbound : ∀ new prev, ∀ e ∈ (⟨n, d, new, prev⟩ :: s.historyBuffer : List RenameHistory),
      e.instSeqNum ≤ n :=
    fun new prev => forall_mem_cons.2 ⟨le_rfl, hn⟩
  -- a destination that is not renamed
  have hsame : ∀ p, rename m d s = .ok ((p, p), s) →
      ∃ s', renameDestReg m n s d = .ok s' ∧ Moved m (takes n) s s' ∧ Inv m s'
        ∧ (∀ e ∈ s'.historyBuffer, e.instSeqNum ≤ n)
        ∧ ∀ c, (s.freeList c).length
          ≤ (s'.freeList c).length + (if d.regClass = c then 1 else 0) := by
    intro p hp
    have hmoved : Moved m (takes n) s
        { s with historyBuffer := ⟨n, d, p, p⟩ :: s.historyBuffer } := moved_push rfl
    refine ⟨{ s with historyBuffer := ⟨n, d, p, p⟩ :: s.historyBuffer }, ?_, hmoved,
      h.moved hmoved (hsorted p p), hbound p p, fun c => Nat.le_add_right _ _⟩
    rw [renameDestReg, hp]
    rfl
  by_cases hmisc : d.regClass = .MiscReg
  · exact hsame (.reg .MiscReg d.flatIndex) (by simp only [rename, hmisc]; rfl)
  have hactive : Active s.vecMode d.regClass := by
    by_contra hc
    exact hfree hmisc (h.idle _ hc).1
  have hlt : d.flatIndex < (s.renameMap d.regClass).length :=
    (hvalid hmisc).trans_eq (h.length d.regClass).symm
  obtain ⟨prev, hprev⟩ : ∃ prev, (s.renameMap d.regClass)[d.flatIndex]? = some prev :=
    ⟨_, getElem?_eq_getElem hlt⟩
  by_cases hzero : d = m.zeroReg d.regClass
  · obtain ⟨hint, hidx⟩ := eq_zeroReg_iff.mp hzero
    have hz : prev = .reg .IntReg m.ZeroReg := by
      have hmap := h.zero (by have := hvalid hmisc; rw [hint, hidx] at this; exact this)
      rw [hint, hidx] at hprev
      exact Option.some.inj (hprev.symm.trans hmap)
    refine hsame prev ?_
    rw [rename_of_active hactive]
    exact simpleRename_zeroReg hprev hzero (by rw [hz]; simp [Machine.isZeroReg])
  · cases hpool : s.freeList d.regClass with
    | nil => exact absurd hpool (hfree hmisc)
    | cons new rest =>
      have hne : new ≠ prev :=
        h.pool_ne_table hactive (by rw [hpool]; exact mem_cons_self) hprev
      have hmoved : Moved m (takes n) s (s.setClass d.regClass rest
          ((s.renameMap d.regClass).set d.flatIndex new) (⟨n, d, new, prev⟩ :: s.historyBuffer)) := by
        refine .setClass ⟨d.flatIndex, rfl⟩ ?_ ?_ (fun c' hcc => ?_)
        · exact fun hint hidx => hzero (eq_zeroReg_iff.mpr ⟨hint, hidx⟩)
        · rw [journal, hpool, logOf_cons_of_isChange (e := ⟨n, d, new, prev⟩) ⟨rfl, hne⟩]
          exact .take n d.flatIndex hprev
        · exact logOf_cons_of_not (fun hch => hcc hch.1.symm)
      refine ⟨_, ?_, hmoved, h.moved hmoved (hsorted new prev), hbound new prev, fun c => ?_⟩
      · rw [renameDestReg, rename_of_active hactive, simpleRename_ok hprev hzero hpool]
        rfl
      · by_cases hcc : d.regClass = c
        · subst hcc
          simp [setClass, setMap, setFree, hpool]
        · simp [setClass, setMap, setFree, hcc, Ne.symm hcc]

/-- **Renaming.** If `canRename` allows it, all destinations are renamed without a fault. -/
theorem renameDestRegs_spec {dests : List RegId} (h : Inv m s)
    (hn : ∀ e ∈ s.historyBuffer, e.instSeqNum ≤ n) (hvalid : ∀ d ∈ dests, m.Valid d)
    (hcan : canRename dests s) :
    ∃ s', renameDestRegs m n dests s = .ok s' ∧ Moved m (takes n) s s' ∧ Inv m s'
      ∧ ∀ e ∈ s'.historyBuffer, e.instSeqNum ≤ n := by
  induction dests generalizing s with
  | nil => exact ⟨s, rfl, .of_journal_eq rfl (fun _ => rfl), h, hn⟩
  | cons d dests ih =>
    have hfree : d.regClass ≠ .MiscReg → s.freeList d.regClass ≠ [] := by
      intro hmisc hnil
      have := hcan d.regClass hmisc
      rw [hnil, countP_cons_of_pos (by simp)] at this
      simp at this
    obtain ⟨s1, hs1, hmoved1, hinv1, hn1, hleft⟩ :=
      renameDestReg_spec h hn (hvalid d mem_cons_self) hfree
    have hcan1 : canRename dests s1 := by
      intro c hc
      have hc1 := hcan c hc
      have hc2 := hleft c
      rw [countP_cons] at hc1
      simp only [decide_eq_true_eq] at hc1
      omega
    obtain ⟨s2, hs2, hmoved2, hinv2, hn2⟩ :=
      ih hinv1 hn1 (fun d' hd' => hvalid d' (mem_cons_of_mem _ hd')) hcan1
    refine ⟨s2, ?_, hmoved1.trans hmoved2, hinv2, hn2⟩
    rw [renameDestRegs, foldlM_cons, hs1, ok_bind]
    exact hs2

end Bindu.O3
