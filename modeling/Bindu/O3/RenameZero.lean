/-
The zero registers in the rename stage.

A map leaves alone the register that it was told to be its zero register. `init` makes that
register an integer register for every map, so the map of floating-point registers compares its
registers with one of another class and renames all of them.

What is shown of the zero registers holds of every register that no instruction has as a
destination: it keeps the physical register it had at first, and no other place has that one.
-/
import Bindu.O3.RenameRuns

open Bindu.Lib
open List hiding lookup

namespace Bindu.O3

open RenameState

/-- The physical register that an architectural register has at first. -/
def RegId.phys (z : RegId) : PhysRegIdPtr := .reg z.regClass z.flatIndex

/-- `UnifiedRenameMap::lookup` of a register that is renamed. -/
def RenameState.lookup (s : RenameState) (arch_reg : RegId) : Option PhysRegIdPtr :=
  (s.renameMap arch_reg.regClass)[arch_reg.flatIndex]?

/-- The entry can bring the register of `z` neither into a map nor into a free list. -/
def Spares (z : RegId) (e : RenameHistory) : Prop :=
  e.newPhysReg ≠ e.prevPhysReg →
    e.archReg ≠ z ∧ e.newPhysReg ≠ z.phys ∧ e.prevPhysReg ≠ z.phys

/-- Register `z` has the physical register it had at first, and nothing else has it. -/
structure Pinned (z : RegId) (s : RenameState) : Prop where
  mapped : ∀ d, s.lookup d = some z.phys ↔ d = z
  notFree : ∀ c, z.phys ∉ s.freeList c
  spared : ∀ e ∈ s.historyBuffer, Spares z e

namespace Pinned

variable {m : Machine} {z d : RegId} {s : RenameState} {q : PhysRegIdPtr} {n : ℕ}

theorem setFree {c : RegClass} {l : List PhysRegIdPtr} (h : Pinned z s) (hl : z.phys ∉ l) :
    Pinned z (s.setFree c l) :=
  { h with
    notFree := (Function.forall_update_iff s.freeList (p := fun _ l => z.phys ∉ l)).mpr
      ⟨hl, fun c' _ => h.notFree c'⟩ }

/-- The entry of another register changes, and does not become the register of `z`. -/
theorem setMap (h : Pinned z s) (hd : d ≠ z) (hq : q ≠ z.phys) :
    Pinned z (s.setMap d.regClass ((s.renameMap d.regClass).set d.flatIndex q)) := by
  refine { h with mapped := fun d' => ?_ }
  by_cases hdd : d' = d
  · subst hdd
    simp [lookup, RenameState.setMap, getElem?_set_self', hq, hd]
  · rw [← h.mapped d']
    by_cases hc : d'.regClass = d.regClass
    · have hi : d.flatIndex ≠ d'.flatIndex := fun hi => hdd (RegId.mk.injEq .. ▸ ⟨hc, hi.symm⟩)
      simp [lookup, RenameState.setMap, hc, hi]
    · simp [lookup, RenameState.setMap, hc]

theorem addReg (h : Pinned z s) (hq : q ≠ z.phys) : Ok (Pinned z) ⊤ (addReg q s) := by
  cases q with
  | null => trivial
  | reg c i =>
    rw [O3.addReg]
    split_ifs
    · trivial
    · exact h.setFree (by simp [h.notFree, hq.symm])

theorem setEntry (h : Pinned z s) (hd : d ≠ z) (hq : q ≠ z.phys) :
    Ok (Pinned z) ⊤ (setEntry d q s) := by
  unfold O3.setEntry
  split_ifs
  any_goals trivial
  exact h.setMap hd hq

theorem simpleRename (h : Pinned z s) (hd : d = z → d = m.zeroReg d.regClass) :
    Ok (fun r => Pinned z r.2 ∧ Spares z ⟨n, d, r.1.1, r.1.2⟩) ⊤ (simpleRename m d s) := by
  unfold O3.simpleRename
  split
  · trivial
  · split_ifs with hzero
    · split
      · trivial
      next renamed_reg rest hfree =>
        have hne : d ≠ z := fun heq => hzero (hd heq)
        have hpool := h.notFree d.regClass
        rw [hfree, mem_cons, not_or] at hpool
        refine ⟨(h.setFree hpool.2).setMap hne (Ne.symm hpool.1), fun _ => ⟨hne, ?_, ?_⟩⟩
        · exact Ne.symm hpool.1
        · rintro rfl
          exact hne ((h.mapped d).mp ‹_›)
    · exact ⟨h, fun hne => absurd rfl hne⟩
    · trivial

theorem rename (h : Pinned z s) (hd : d = z → d = m.zeroReg d.regClass) :
    Ok (fun r => Pinned z r.2 ∧ Spares z ⟨n, d, r.1.1, r.1.2⟩) ⊤ (rename m d s) := by
  have hsimple := h.simpleRename (n := n) hd
  unfold O3.rename
  split
  · split_ifs
    · exact hsimple
    · trivial
  · split_ifs
    · exact hsimple
    · trivial
  · exact ⟨h, fun hne => absurd rfl hne⟩
  · exact hsimple

theorem squashLoop {hb : List RenameHistory} (h : Pinned z s) (hhb : ∀ e ∈ hb, Spares z e) :
    Ok (Pinned z) ⊤ (squashLoop n hb s) := by
  induction hb generalizing s with
  | nil => exact h
  | cons e rest ih =>
    obtain ⟨he, hrest⟩ := forall_mem_cons.1 hhb
    unfold O3.squashLoop undoEntry
    split_ifs with _ hne
    · obtain ⟨harch, hnew, hprev⟩ := he hne
      simp only [bind_assoc]
      refine (h.setEntry harch hprev).bind fun _ h => (h.addReg hnew).bind fun _ h => ?_
      exact ih { h with spared := hrest } hrest
    · exact ih { h with spared := hrest } hrest
    · exact h

theorem commitLoop {hb : List RenameHistory} (h : Pinned z s) (hhb : ∀ e ∈ hb, Spares z e) :
    Ok (Pinned z) ⊤ (commitLoop n hb s) := by
  induction hb generalizing s with
  | nil => exact h
  | cons e rest ih =>
    obtain ⟨he, hrest⟩ := forall_mem_cons.1 hhb
    have hrev : ∀ e ∈ rest.reverse, Spares z e := fun e he => hrest e (mem_reverse.1 he)
    unfold O3.commitLoop retireEntry
    split_ifs with _ hne
    · simp only [bind_assoc]
      refine (h.addReg (he hne).2.2).bind fun _ h => ?_
      exact ih { h with spared := hrev } hrest
    · exact ih { h with spared := hrev } hrest
    · exact h

/-- The elements of vector registers are registers of another class. -/
theorem mapM_getRegElemIds (hz : z.regClass ≠ .VecElem) (l : List PhysRegIdPtr) :
    Ok (fun elems => z.phys ∉ elems.flatten) ⊤ (l.mapM (getRegElemIds m)) := by
  induction l with
  | nil => exact not_mem_nil
  | cons p l ih =>
    rw [mapM_cons]
    refine Ok.bind (Q := fun l => z.phys ∉ l) ?_ (fun e he => ih.bind fun es hes => ?_)
    · unfold getRegElemIds
      split
      any_goals trivial
      simp [Machine.regIds, RegId.phys, hz.symm]
    · rw [Ok.pure_iff, flatten_cons, mem_append, not_or]
      exact ⟨he, hes⟩

theorem switchRenameMode {mode : VecMode} (h : Pinned z s) (hvec : z.regClass ≠ .VecReg)
    (helem : z.regClass ≠ .VecElem) : Ok (Pinned z) ⊤ (switchRenameMode m mode s) := by
  have hmode : Ok (Pinned z) ⊤ (switchMode m mode s) := by
    unfold switchMode
    split_ifs
    · refine (mapM_getRegElemIds helem _).bind fun elems hel => { h with mapped := fun d => ?_ }
      by_cases hc : d.regClass = .VecElem
      · refine iff_of_false (fun hd => hel (mem_of_getElem? (i := d.flatIndex) ?_)) ?_
        · simpa [lookup, RenameState.setMap, hc] using hd
        · rintro rfl
          exact helem hc
      · simpa [lookup, RenameState.setMap, hc] using h.mapped d
    · exact { h with }
    · exact h
  unfold O3.switchRenameMode
  split_ifs
  · refine hmode.bind fun s h => ?_
    unfold switchFreeList
    split
    all_goals split_ifs
    any_goals trivial
    · refine (mapM_getRegElemIds helem _).bind fun elems hel => ?_
      exact (h.setFree (by simp [h.notFree, hel])).setFree not_mem_nil
    · refine (h.setFree ?_).setFree not_mem_nil
      rw [mem_append, not_or]
      exact ⟨h.notFree _, by simp [Machine.regIds, RegId.phys, hvec.symm]⟩
  · exact h

end Pinned

/-! ## Runs -/

/-- What the stage is told to do. -/
inductive RenameCall
  | renameDestRegs (seqNum : ℕ) (dests : List RegId)
  | doSquash (squashed_seq_num : ℕ) (new_mode : VecMode)
  | removeFromHistory (inst_seq_num : ℕ)

def RenameCall.exec (m : Machine) (s : RenameState) : RenameCall → Except Fault RenameState
  | .renameDestRegs n dests => O3.renameDestRegs m n dests s
  | .doSquash n mode => O3.doSquash m n mode s
  | .removeFromHistory n => O3.removeFromHistory n s

def RenameCall.dests : RenameCall → List RegId
  | .renameDestRegs _ dests => dests
  | _ => []

variable {m : Machine} {z : RegId}

theorem Pinned.initial {mode : VecMode} (hc : Active mode z.regClass)
    (hz : z.flatIndex < m.numRegs z.regClass) : Pinned z (initial m mode) where
  mapped d := by
    obtain ⟨c, i⟩ := d
    obtain ⟨c', i'⟩ := z
    by_cases hd : Active mode c
    · have hget : (O3.initial m mode).lookup ⟨c, i⟩ = some (.reg c' i')
          ↔ (i < m.numRegs c ∧ i = i') ∧ c = c' := by
        simp [lookup, O3.initial, hd, Machine.regIds, List.getElem?_eq_some_iff]
      refine hget.trans ⟨?_, ?_⟩
      · rintro ⟨⟨-, rfl⟩, rfl⟩
        rfl
      · rintro ⟨⟩
        exact ⟨⟨hz, rfl⟩, rfl⟩
    · refine iff_of_false ?_ (by rintro ⟨⟩; exact hd hc)
      simp [lookup, O3.initial, hd, getElem?_replicate, RegId.phys]
  notFree c hmem := by
    simp only [O3.initial] at hmem
    split_ifs at hmem
    · obtain ⟨i, hi, heq⟩ := mem_map.mp hmem
      obtain ⟨rfl, rfl⟩ := PhysRegIdPtr.reg.inj heq
      have := mem_range'_1.mp hi
      omega
    · exact not_mem_nil hmem
  spared e he := absurd he not_mem_nil

/-- A call keeps every register that is not its destination, and the zero register of its map. -/
theorem Pinned.exec {s : RenameState} {call : RenameCall} (h : Pinned z s)
    (hvec : z.regClass ≠ .VecReg) (helem : z.regClass ≠ .VecElem)
    (hd : ∀ d ∈ call.dests, d = z → d = m.zeroReg d.regClass) :
    Ok (Pinned z) ⊤ (call.exec m s) := by
  cases call with
  | renameDestRegs n dests =>
    refine Ok.foldlM_inv _ h fun d hmem s h => (h.rename (n := n) (hd d hmem)).bind ?_
    rintro ⟨r, s'⟩ ⟨h', hspares⟩
    exact { h' with spared := forall_mem_cons.2 ⟨hspares, h'.spared⟩ }
  | doSquash n mode => exact (h.squashLoop h.spared).bind fun s h => h.switchRenameMode hvec helem
  | removeFromHistory n =>
    change Ok _ _ (O3.removeFromHistory n s)
    unfold removeFromHistory
    split
    · exact h
    · split_ifs
      · exact h
      · exact h.commitLoop fun e he => h.spared e (mem_reverse.1 he)

/-- **The zero registers keep their physical registers**, and these are in no free list, in
every run in which no instruction has the floating-point zero register as a destination. The
integer zero register can be renamed at any time and takes no register. -/
theorem zero_registers_keep_mapping (m : Machine) (mode : VecMode) (calls : List RenameCall)
    (s : RenameState) (hint : m.ZeroReg < m.NumIntRegs) (hfloat : m.fpZeroReg < m.NumFloatRegs)
    (hdests : ∀ call ∈ calls, ⟨.FloatReg, m.fpZeroReg⟩ ∉ call.dests)
    (hs : calls.foldlM (RenameCall.exec m) (initial m mode) = .ok s) :
    (∀ z ∈ [⟨.IntReg, m.ZeroReg⟩, ⟨.FloatReg, m.fpZeroReg⟩],
      s.lookup z = some z.phys ∧ ∀ c, z.phys ∉ s.freeList c)
    ∧ rename m ⟨.IntReg, m.ZeroReg⟩ s
      = .ok ((.reg .IntReg m.ZeroReg, .reg .IntReg m.ZeroReg), s) := by
  have hzero : Pinned ⟨.IntReg, m.ZeroReg⟩ s := by
    refine (Ok.foldlM_inv (E := ⊤) _ (.initial (by simp [Active]) hint) ?_).elim hs
    rintro call - s h
    refine h.exec (by simp) (by simp) ?_
    rintro d - rfl
    rfl
  have hfp : Pinned ⟨.FloatReg, m.fpZeroReg⟩ s := by
    refine (Ok.foldlM_inv (E := ⊤) _ (.initial (by simp [Active]) hfloat) ?_).elim hs
    intro call hcall s h
    refine h.exec (by simp) (by simp) ?_
    rintro d hd rfl
    exact absurd hd (hdests call hcall)
  have hmapped := (hzero.mapped _).mpr rfl
  refine ⟨?_, simpleRename_zeroReg hmapped rfl (by simp [Machine.isZeroReg])⟩
  simp only [forall_mem_cons]
  exact ⟨⟨hmapped, hzero.notFree⟩, ⟨(hfp.mapped _).mpr rfl, hfp.notFree⟩, forall_mem_nil _⟩

/-- An instruction set with a floating-point zero register. -/
def Machine.tinyZero : Machine := { Machine.tiny with fpZeroReg := 1, isAlpha := true }

/-- The integer zero register is renamed and committed, another register is squashed. -/
theorem zero_registers_keep_mapping_tiny :
    let calls := [RenameCall.renameDestRegs 1 [⟨.IntReg, 1⟩], .renameDestRegs 2 [⟨.FloatReg, 0⟩],
      .removeFromHistory 1, .doSquash 1 .Full]
    ∃ s, calls.foldlM (RenameCall.exec .tinyZero) (initial .tinyZero .Full) = .ok s
      ∧ ∀ z ∈ [⟨.IntReg, 1⟩, ⟨.FloatReg, 1⟩],
        s.lookup z = some z.phys ∧ ∀ c, z.phys ∉ s.freeList c := by
  intro calls
  exact ⟨_, rfl, (zero_registers_keep_mapping .tinyZero .Full calls _ (by decide) (by decide)
    (by decide) rfl).1⟩

/-- **A zero register that is handed out.** An instruction writes the floating-point zero
register. It gets another physical register, and when the instruction commits, the constant
zero is on the free list. -/
theorem float_zero_register_freed : ∃ s1 s2,
    renameDestRegs .tinyZero 1 [⟨.FloatReg, 1⟩] (initial .tinyZero .Full) = .ok s1
      ∧ s1.lookup ⟨.FloatReg, 1⟩ = some (.reg .FloatReg 2)
      ∧ s1.freeList .FloatReg = []
      ∧ removeFromHistory 1 s1 = .ok s2
      ∧ s2.freeList .FloatReg = [.reg .FloatReg 1] :=
  ⟨_, _, rfl, rfl, rfl, rfl, rfl⟩

end Bindu.O3
