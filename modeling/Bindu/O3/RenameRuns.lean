/-
Runs of the rename stage.

A run renames instructions with increasing sequence numbers, squashes those above a number and
commits those up to a number, with squashes only above what is committed. What the map was
right after an instruction was renamed is remembered beside the state.

The switch between vector registers and their elements keeps the conservation of registers on
the way to elements: the elements of a register go where the register was. On the way back it
does not. The map of vector registers keeps the registers it had before, but the contents are
moved to the first ones and all others are put on the free list.
-/
import Bindu.O3.RenameJournal

open Bindu.Lib List

namespace Bindu.O3

open RenameState

variable {m : Machine} {s s' : RenameState}

/-! ## The initial state -/

variable {c : RegClass}

theorem regIds_append {a b d : ℕ} (hab : a ≤ b) (hbd : b ≤ d) :
    Machine.regIds c a b ++ Machine.regIds c b d = Machine.regIds c a d := by
  rw [Machine.regIds, Machine.regIds, Machine.regIds, ← map_append]
  congr 1
  rw [show d - a = (b - a) + (d - b) by omega, ← range'_append_1,
    show a + (b - a) = b by omega]

theorem length_regIds {a b : ℕ} : (Machine.regIds c a b).length = b - a := by
  rw [Machine.regIds, length_map, length_range']

theorem initial_inv (m : Machine) (mode : VecMode) : Inv m (initial m mode) where
  conserved c hc := by
    have hc' : Active mode c := hc
    have hsplit := regIds_append (c := c) (Nat.zero_le _) (m.numRegs_le c)
    simp only [Journal.Conserved, journal, initial, if_pos hc', logOf,
      filter_nil, map_nil, append_nil]
    rw [Machine.getRegIds, ← hsplit]
    exact perm_append_comm
  chained c _ := trivial
  idle c hc := by
    have hc' : ¬ Active mode c := hc
    simp [journal, initial, if_neg hc', logOf]
  length c := by
    simp only [journal, initial]
    split_ifs
    · exact length_regIds
    · exact length_replicate
  zero hz := by
    have hc : Active mode .IntReg := ⟨by decide, by simp, by simp⟩
    simp only [journal, initial, if_pos hc, Machine.regIds, getElem?_map]
    rw [getElem?_range' (by simpa [Machine.numRegs] using hz)]
    simp
  zeroLog ch hch := absurd hch not_mem_nil
  sorted := Pairwise.nil

/-! ## The switch of the vector mode -/

/-- The elements of a vector register. -/
def elemsOf (m : Machine) : PhysRegIdPtr → List PhysRegIdPtr
  | .reg .VecReg idx => Machine.regIds .VecElem (idx * m.NumVecElemPerVecReg)
      ((idx + 1) * m.NumVecElemPerVecReg)
  | _ => []

theorem mapM_getRegElemIds {l : List PhysRegIdPtr} (h : ∀ p ∈ l, ∃ i, p = .reg .VecReg i) :
    l.mapM (getRegElemIds m) = .ok (l.map (elemsOf m)) := by
  induction l with
  | nil => rfl
  | cons p l ih =>
    obtain ⟨i, rfl⟩ := h p mem_cons_self
    rw [mapM_cons, ih (fun q hq => h q (mem_cons_of_mem _ hq))]
    rfl

theorem flatMap_elemsOf (m : Machine) :
    (m.getRegIds .VecReg).flatMap (elemsOf m) = m.getRegIds .VecElem := by
  have key : ∀ n, (Machine.regIds .VecReg 0 n).flatMap (elemsOf m)
      = Machine.regIds .VecElem 0 (n * m.NumVecElemPerVecReg) := by
    intro n
    induction n with
    | zero => simp [Machine.regIds]
    | succ n ih =>
      rw [← regIds_append (Nat.zero_le n) (Nat.le_succ n), flatMap_append, ih]
      have hlast : Machine.regIds .VecReg n (n + 1) = [.reg .VecReg n] := by
        simp [Machine.regIds]
      rw [hlast, flatMap_singleton]
      exact regIds_append (Nat.zero_le _) (Nat.mul_le_mul_right _ (Nat.le_succ n))
  exact key m.numPhysVecRegs

theorem length_flatMap_elemsOf {l : List PhysRegIdPtr} (h : ∀ p ∈ l, ∃ i, p = .reg .VecReg i) :
    (l.flatMap (elemsOf m)).length = l.length * m.NumVecElemPerVecReg := by
  induction l with
  | nil => simp
  | cons p l ih =>
    obtain ⟨i, rfl⟩ := h p mem_cons_self
    rw [flatMap_cons, length_append, ih (fun q hq => h q (mem_cons_of_mem _ hq)),
      elemsOf, length_regIds, length_cons, Nat.add_mul, Nat.add_mul]
    omega

theorem active_vecReg (hfull : s.vecMode = .Full) : Active s.vecMode .VecReg :=
  ⟨by decide, fun _ => hfull, by simp⟩

theorem not_active_vecElem (hfull : s.vecMode = .Full) : ¬ Active s.vecMode .VecElem := by
  intro hc
  have helem := hc.2.2 rfl
  rw [hfull] at helem
  simp at helem

/-- The state after the switch to elements. -/
def splitVectors (m : Machine) (s : RenameState) : RenameState :=
  { ((s.setMap .VecElem ((s.renameMap .VecReg).flatMap (elemsOf m))).setFree .VecElem
      ((s.freeList .VecReg).flatMap (elemsOf m))).setFree .VecReg [] with vecMode := .Elem }

/-- If the switch to elements does not stop, all vector registers that are not in the map are
free, and the elements take the places of the registers. -/
theorem switchRenameMode_elem (h : Inv m s) (hfull : s.vecMode = .Full)
    (hs : switchRenameMode m .Elem s = .ok s') :
    s' = splitVectors m s ∧ (s.freeList .VecReg).length = m.numPhysVecRegs - m.NumVecRegs := by
  have hvec := active_vecReg hfull
  have hmap := fun p => h.mem_table_class hvec (p := p)
  have hfree := fun p => h.mem_pool_class hvec (p := p)
  have hidle : s.freeList .VecElem = [] := (h.idle .VecElem (not_active_vecElem hfull)).1
  let s1 : RenameState :=
    { s.setMap .VecElem ((s.renameMap .VecReg).map (elemsOf m)).flatten with vecMode := .Elem }
  have hmode : switchMode m .Elem s = .ok s1 := by
    rw [switchMode, if_pos ⟨rfl, hfull⟩, mapM_getRegElemIds hmap, ok_bind]
    rfl
  rw [switchRenameMode, if_pos (by rw [hfull]; decide), hmode, ok_bind] at hs
  simp only [switchFreeList, s1] at hs
  rw [show (s.setMap .VecElem ((s.renameMap .VecReg).map (elemsOf m)).flatten).freeList
    = s.freeList from rfl, hidle, mapM_getRegElemIds hfree, if_neg (by simp)] at hs
  split_ifs at hs with hlen
  rw [ok_bind] at hs
  refine ⟨?_, not_not.mp hlen⟩
  rw [← Except.ok.inj hs, splitVectors, flatMap_def, flatMap_def, nil_append]
  rfl

/-- **The switch to elements keeps the invariant.** -/
theorem Inv.splitVectors (h : Inv m s) (hfull : s.vecMode = .Full)
    (hlen : (s.freeList .VecReg).length = m.numPhysVecRegs - m.NumVecRegs) :
    Inv m (splitVectors m s) := by
  have hvec := active_vecReg hfull
  have helem := not_active_vecElem hfull
  have hperm := h.conserved .VecReg hvec
  have hmap := fun p => h.mem_table_class hvec (p := p)
  -- no vector register is held by the history
  have hlog : logOf .VecReg s.historyBuffer = [] := by
    have hcount := hperm.length_eq
    have hmaplen := h.length .VecReg
    simp only [journal, length_append, length_map, Machine.numRegs,
      Machine.getRegIds, length_regIds, Machine.numPhysRegs] at hcount hmaplen
    exact length_eq_zero_iff.mp (by omega)
  have hother : ∀ c ≠ .VecReg, c ≠ .VecElem → (O3.splitVectors m s).journal c = s.journal c := by
    intro c hc hc'
    simp [journal, O3.splitVectors, setMap, setFree, hc, hc']
  have hjvec : (O3.splitVectors m s).journal .VecReg = ⟨[], s.renameMap .VecReg, []⟩ := by
    rw [← hlog]
    simp [journal, O3.splitVectors, setMap, setFree]
  have hjelem : (O3.splitVectors m s).journal .VecElem
      = ⟨(s.freeList .VecReg).flatMap (elemsOf m), (s.renameMap .VecReg).flatMap (elemsOf m), []⟩ := by
    rw [← (h.idle .VecElem helem).2]
    simp [journal, O3.splitVectors, setMap, setFree]
  have hactive : ∀ c ≠ .VecReg, c ≠ .VecElem → (Active VecMode.Elem c ↔ Active s.vecMode c) := by
    intro c hc hc'
    simp [Active, hc, hc']
  refine ⟨fun c hc => ?_, fun c hc => ?_, fun c hc => ?_, fun c => ?_, fun hz => ?_, ?_, h.sorted⟩
  · have hc1 : Active .Elem c := hc
    by_cases hcv : c = .VecReg
    · exact absurd (hc1.2.1 hcv) (by decide)
    by_cases hce : c = .VecElem
    · subst hce
      rw [hjelem, Journal.Conserved, map_nil, append_nil, ← flatMap_append,
        ← flatMap_elemsOf]
      refine Perm.flatMap_right _ ?_
      have := hperm
      rw [Journal.Conserved, journal, hlog, map_nil, append_nil] at this
      exact this
    · rw [hother c hcv hce]
      exact h.conserved c ((hactive c hcv hce).mp hc1)
  · have hc1 : Active .Elem c := hc
    by_cases hcv : c = .VecReg
    · exact absurd (hc1.2.1 hcv) (by decide)
    by_cases hce : c = .VecElem
    · subst hce
      rw [hjelem]
      trivial
    · rw [hother c hcv hce]
      exact h.chained c ((hactive c hcv hce).mp hc1)
  · have hc1 : ¬ Active .Elem c := hc
    by_cases hcv : c = .VecReg
    · subst hcv
      rw [hjvec]
      exact ⟨rfl, rfl⟩
    by_cases hce : c = .VecElem
    · subst hce
      exact absurd ⟨by decide, by simp, fun _ => rfl⟩ hc1
    · rw [hother c hcv hce]
      exact h.idle c (fun hc' => hc1 ((hactive c hcv hce).mpr hc'))
  · by_cases hcv : c = .VecReg
    · subst hcv
      rw [hjvec]
      exact h.length .VecReg
    by_cases hce : c = .VecElem
    · subst hce
      rw [hjelem]
      rw [length_flatMap_elemsOf hmap, show (s.renameMap .VecReg).length = _ from h.length .VecReg]
      rfl
    · rw [hother c hcv hce]
      exact h.length c
  · rw [hother .IntReg (by decide) (by decide)]
    exact h.zero hz
  · rw [hother .IntReg (by decide) (by decide)]
    exact h.zeroLog

/-- What a switch leaves alone: the history, and the maps of the classes that were in use. -/
theorem switchRenameMode_keeps {mode : VecMode} (h : Inv m s)
    (hs : switchRenameMode m mode s = .ok s') :
    s'.historyBuffer = s.historyBuffer
      ∧ ∀ c, (c = .VecElem → s.vecMode = .Elem) → s'.renameMap c = s.renameMap c := by
  by_cases hsame : mode = s.vecMode
  · rw [switchRenameMode, if_neg (not_not.mpr hsame)] at hs
    rw [← Except.ok.inj hs]
    exact ⟨rfl, fun _ _ => rfl⟩
  cases hmode : s.vecMode with
  | Full =>
    obtain rfl : mode = .Elem := by
      cases mode with
      | Full => exact absurd hmode.symm hsame
      | Elem => rfl
    obtain ⟨rfl, -⟩ := switchRenameMode_elem h hmode hs
    refine ⟨rfl, fun c hc => ?_⟩
    have hne : c ≠ .VecElem := fun heq => by
      have := hc heq
      simp at this
    simp [splitVectors, setMap, setFree, hne]
  | Elem =>
    obtain rfl : mode = .Full := by
      cases mode with
      | Full => rfl
      | Elem => exact absurd hmode.symm hsame
    have hswitch : switchMode m .Full s = .ok { s with vecMode := .Full } := by
      rw [switchMode, if_neg (by simp), if_pos ⟨rfl, hmode⟩]
      rfl
    rw [switchRenameMode, if_pos hsame, hswitch, ok_bind] at hs
    simp only [switchFreeList] at hs
    split_ifs at hs
    rw [← Except.ok.inj hs]
    exact ⟨rfl, fun _ _ => rfl⟩

/-! ## Runs -/

/-- What the map was right after an instruction was renamed, and the mode at that time. -/
structure Snapshot where
  seqNum : ℕ
  mode : VecMode
  map : RegClass → List PhysRegIdPtr

/-- A state of a run: the greatest sequence number that was renamed, the number up to which
instructions are committed, and the snapshots of the instructions that are not squashed. -/
structure Traced where
  state : RenameState
  last : ℕ
  committed : ℕ
  snapshots : List Snapshot

/-- The states of the runs in which no squash switches the vector mode back from elements to
registers. -/
inductive Run (m : Machine) : Traced → Prop
  | init (mode : VecMode) :
      Run m ⟨initial m mode, 0, 0, [⟨0, mode, (initial m mode).renameMap⟩]⟩
  | rename {t : Traced} {n : ℕ} {dests : List RegId} {s' : RenameState} : Run m t →
      t.last < n → (∀ d ∈ dests, m.Valid d) → canRename dests t.state →
      renameDestRegs m n dests t.state = .ok s' →
      Run m ⟨s', n, t.committed, ⟨n, s'.vecMode, s'.renameMap⟩ :: t.snapshots⟩
  | squash {t : Traced} {n : ℕ} {mode : VecMode} {s' : RenameState} : Run m t →
      t.committed ≤ n → (t.state.vecMode = .Elem → mode = .Elem) →
      doSquash m n mode t.state = .ok s' →
      Run m ⟨s', t.last, t.committed, t.snapshots.filter (fun x => x.seqNum ≤ n)⟩
  | commit {t : Traced} {n : ℕ} {s' : RenameState} : Run m t → t.committed ≤ n →
      removeFromHistory n t.state = .ok s' → Run m ⟨s', t.last, n, t.snapshots⟩

/-- What holds in every state of a run. -/
structure Traced.Good (m : Machine) (t : Traced) : Prop where
  inv : Inv m t.state
  history_le : ∀ e ∈ t.state.historyBuffer, e.instSeqNum ≤ t.last
  snapshot_le : ∀ x ∈ t.snapshots, x.seqNum ≤ t.last
  snapshot_mode : ∀ x ∈ t.snapshots, x.mode = .Elem → t.state.vecMode = .Elem
  restores : ∀ x ∈ t.snapshots, t.committed ≤ x.seqNum → ∀ c, Active x.mode c →
    Journal.rollback x.seqNum (t.state.journal c).table (t.state.journal c).log = x.map c

variable {n : ℕ}

/-- A map that is rolled back to the number of the newest entry is the map itself. -/
theorem rollback_journal (h : ∀ e ∈ s.historyBuffer, e.instSeqNum ≤ n) (c : RegClass) :
    Journal.rollback n (s.journal c).table (s.journal c).log = s.renameMap c := by
  refine Journal.rollback_of_le (fun ch hch => ?_)
  obtain ⟨e, he, -, rfl⟩ := stamp_of_mem_logOf hch
  exact h e he

theorem Moved.rollback {P : Journal.Move → Prop} (h : Moved m P s s')
    (hP : ∀ mv, P mv → mv.Keeps n) (c : RegClass) :
    Journal.rollback n (s'.journal c).table (s'.journal c).log
      = Journal.rollback n (s.journal c).table (s.journal c).log :=
  (h.steps c).rollback (fun mv hmv => hP mv hmv.1)

/-- A squash: the loop returns, and the switch of the mode follows. -/
theorem doSquash_spec (n : ℕ) (mode : VecMode) (h : Inv m s) :
    ∃ s1, doSquash m n mode s = switchRenameMode m mode s1 ∧ Moved m (undoes n) s s1 ∧ Inv m s1
      ∧ ∀ e ∈ s1.historyBuffer, e ∈ s.historyBuffer ∧ e.instSeqNum ≤ n := by
  obtain ⟨s1, hs1, hmoved, hinv, hle⟩ := squashLoop_spec n s.historyBuffer h rfl
  refine ⟨s1, ?_, hmoved, hinv, hle⟩
  rw [doSquash, hs1, ok_bind]

theorem Traced.Good.rename {t : Traced} (h : t.Good m) {dests : List RegId}
    (hn : t.last < n) (hvalid : ∀ d ∈ dests, m.Valid d) (hcan : canRename dests t.state)
    (hs : renameDestRegs m n dests t.state = .ok s') :
    Traced.Good m ⟨s', n, t.committed, ⟨n, s'.vecMode, s'.renameMap⟩ :: t.snapshots⟩ := by
  obtain ⟨s1, hs1, hmoved, hinv, hle⟩ := renameDestRegs_spec h.inv
    (fun e he => (h.history_le e he).trans hn.le) hvalid hcan
  obtain rfl := Except.ok.inj (hs1.symm.trans hs)
  refine ⟨hinv, hle, fun x hx => ?_, fun x hx hmode => ?_, fun x hx hcom c hc => ?_⟩
  · rcases mem_cons.mp hx with rfl | hx
    · exact le_rfl
    · exact (h.snapshot_le x hx).trans hn.le
  · rcases mem_cons.mp hx with rfl | hx
    · exact hmode
    · exact hmoved.mode.trans (h.snapshot_mode x hx hmode)
  · rcases mem_cons.mp hx with rfl | hx
    · exact rollback_journal hle c
    · -- the new changes have a greater number than the old snapshots
      rw [← h.restores x hx hcom c hc]
      refine hmoved.rollback (fun mv hmv => ?_) c
      obtain ⟨slot, rfl⟩ := hmv
      exact (h.snapshot_le x hx).trans_lt hn

theorem Traced.Good.squash {t : Traced} (h : t.Good m) {mode : VecMode}
    (hmode : t.state.vecMode = .Elem → mode = .Elem) (hs : doSquash m n mode t.state = .ok s') :
    Traced.Good m ⟨s', t.last, t.committed, t.snapshots.filter (fun x => x.seqNum ≤ n)⟩ := by
  obtain ⟨s1, hs1, hmoved, hinv, hle⟩ := doSquash_spec n mode h.inv
  rw [hs1] at hs
  obtain ⟨hhb, hmap⟩ := switchRenameMode_keeps hinv hs
  have hinv' : Inv m s' ∧ (s1.vecMode = .Elem → s'.vecMode = .Elem) := by
    by_cases hsame : mode = s1.vecMode
    · rw [switchRenameMode, if_neg (not_not.mpr hsame)] at hs
      rw [← Except.ok.inj hs]
      exact ⟨hinv, id⟩
    · have hfull : s1.vecMode = .Full := by
        cases hv : s1.vecMode with
        | Full => rfl
        | Elem => exact absurd ((hmode (hmoved.mode ▸ hv)).trans hv.symm) hsame
      obtain rfl : mode = .Elem := by
        cases mode with
        | Full => exact absurd hfull.symm hsame
        | Elem => rfl
      obtain ⟨rfl, hlen⟩ := switchRenameMode_elem hinv hfull hs
      exact ⟨hinv.splitVectors hfull hlen, fun _ => rfl⟩
  refine ⟨hinv'.1, fun e he => ?_, fun x hx => ?_, fun x hx hx' => ?_, fun x hx hcom c hc => ?_⟩
  · rw [hhb] at he
    exact h.history_le e (hle e he).1
  · exact h.snapshot_le x (mem_of_mem_filter hx)
  · exact hinv'.2 (hmoved.mode.trans (h.snapshot_mode x (mem_of_mem_filter hx) hx'))
  · obtain ⟨hx, hxn⟩ := mem_filter.mp hx
    rw [decide_eq_true_iff] at hxn
    have hsame : (s'.journal c).table = (s1.journal c).table
        ∧ (s'.journal c).log = (s1.journal c).log := by
      refine ⟨hmap c (fun hce => ?_), by simp only [journal, hhb]⟩
      exact hmoved.mode.trans (h.snapshot_mode x hx (hc.2.2 hce))
    rw [hsame.1, hsame.2, ← h.restores x hx hcom c hc]
    refine hmoved.rollback (fun mv hmv => ?_) c
    obtain ⟨stamp, slot, hstamp, rfl⟩ := hmv
    exact hxn.trans_lt hstamp

theorem Traced.Good.commit {t : Traced} (h : t.Good m) (hn : t.committed ≤ n)
    (hs : removeFromHistory n t.state = .ok s') :
    Traced.Good m ⟨s', t.last, n, t.snapshots⟩ := by
  obtain ⟨s1, hs1, hmoved, hinv, hsub⟩ := removeFromHistory_spec n h.inv
  obtain rfl := Except.ok.inj (hs1.symm.trans hs)
  refine ⟨hinv, fun e he => h.history_le e (hsub e he), h.snapshot_le, fun x hx hx' => ?_,
    fun x hx hcom c hc => ?_⟩
  · exact hmoved.mode.trans (h.snapshot_mode x hx hx')
  · rw [← h.restores x hx (hn.trans hcom) c hc]
    refine hmoved.rollback (fun mv hmv => ?_) c
    obtain ⟨stamp, slot, hstamp, rfl⟩ := hmv
    exact hstamp.trans hcom

theorem Run.good {t : Traced} (h : Run m t) : t.Good m := by
  induction h with
  | init mode =>
    have hempty : ∀ e ∈ (initial m mode).historyBuffer, e.instSeqNum ≤ 0 :=
      fun e he => absurd he not_mem_nil
    refine ⟨initial_inv m mode, hempty, fun x hx => ?_, fun x hx hmode => ?_, fun x hx _ c _ => ?_⟩
    · rw [mem_singleton.mp hx]
    · rw [mem_singleton.mp hx] at hmode
      exact hmode
    · rw [mem_singleton.mp hx]
      exact rollback_journal hempty c
  | rename _ hn hvalid hcan hs ih => exact ih.rename hn hvalid hcan hs
  | squash _ _ hmode hs ih => exact ih.squash hmode hs
  | commit _ hn hs ih => exact ih.commit hn hs

/-! ## Where the registers are -/

/-- The entries of the history that hold a register of class `c` are the changes of its map. -/
theorem Inv.countP_history (h : Inv m s) {k : ℕ} :
    s.historyBuffer.countP (fun e => e.newPhysReg ≠ e.prevPhysReg ∧ e.prevPhysReg = .reg c k)
      = ((logOf c s.historyBuffer).map Change.old).count (.reg c k) := by
  rw [logOf, map_map, count, countP_map, countP_filter]
  refine countP_congr (fun e he => ?_)
  simp only [Function.comp_apply, beq_iff_eq, Bool.and_eq_true, decide_eq_true_eq]
  constructor
  · rintro ⟨hne, hprev⟩
    -- the old register of a change is one of the class of its architectural register
    have hmem : e.change ∈ (s.journal e.archReg.regClass).log :=
      mem_map_of_mem (mem_filter.mpr ⟨he, decide_eq_true ⟨rfl, hne⟩⟩)
    obtain ⟨k', hk'⟩ := h.old_class hmem
    have hclass : PhysRegIdPtr.reg e.archReg.regClass k' = .reg c k := hk'.symm.trans hprev
    exact ⟨hprev, (PhysRegIdPtr.reg.inj hclass).1, hne⟩
  · rintro ⟨hprev, -, hne⟩
    exact ⟨hne, hprev⟩

theorem Inv.count_eq_one (h : Inv m s) (hc : Active s.vecMode c)
    {p : PhysRegIdPtr} (hp : p ∈ m.getRegIds c) :
    (s.freeList c).count p + (s.renameMap c).count p
      + s.historyBuffer.countP (fun e => e.newPhysReg ≠ e.prevPhysReg ∧ e.prevPhysReg = p) = 1 := by
  obtain ⟨k, rfl⟩ := mem_getRegIds hp
  have hcount := (h.conserved c hc).count_eq (.reg c k)
  rw [count_eq_one_of_mem (nodup_getRegIds m c) hp, count_append, count_append] at hcount
  rw [h.countP_history]
  exact hcount

/-- A machine with one vector register of two elements, and a zero register. -/
def Machine.tiny : Machine where
  NumIntRegs := 2
  NumFloatRegs := 2
  NumVecRegs := 1
  NumVecElemPerVecReg := 2
  NumVecPredRegs := 1
  NumCCRegs := 1
  ZeroReg := 1
  fpZeroReg := 3
  isAlpha := false
  numPhysIntRegs := 4
  numPhysFloatRegs := 3
  numPhysVecRegs := 2
  numPhysVecPredRegs := 2
  numPhysCCRegs := 2
  int_le := by decide
  float_le := by decide
  vec_le := by decide
  vecPred_le := by decide
  cc_le := by decide

theorem Run.free_length {t : Traced} (h : Run m t) (hc : Active t.state.vecMode c) :
    (t.state.freeList c).length + t.state.historyBuffer.countP (RenameHistory.IsChange c)
      = m.numPhysRegs c - m.numRegs c := by
  have hall := (h.good.inv.conserved c hc).length_eq
  have htable := h.good.inv.length c
  have hlog : (t.state.journal c).log.length
      = t.state.historyBuffer.countP (RenameHistory.IsChange c) := by
    rw [countP_eq_length_filter]
    exact length_map ..
  have hpool : (t.state.journal c).pool = t.state.freeList c := rfl
  rw [length_append, length_append, length_map, Machine.getRegIds, length_regIds, hpool] at hall
  omega

end Bindu.O3
