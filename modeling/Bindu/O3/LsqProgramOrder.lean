/-
Loads return the values of program order, or are caught.

`InProgramOrder` is the property of all runs. A load that has a value has the right one at every
byte; or an older store that overlaps it executed after the load had its address, and at that
step the violator became the load or an older one; or there is such a store that has not
executed yet, and whenever it does, the same happens.

Which value is the right one is given by `value`, for the bytes of the program. It may be read in
two ways, by the addresses of the program or by those of memory. Both agree if no two bytes of
the program are one byte of memory.
-/
import Bindu.O3.LsqRuns

open Bindu.Lib List

namespace Bindu.O3

namespace Lsq

variable {P : Params} {prog : ℕ → MemInst} {init : ℕ → Byte}
variable {s0 s s' s'' : LSQUnit} {es es' : List Event} {k p : ℕ}

/-! ## The property -/

/-- Executing store `k` leaves load `p` or an older one as the violator. -/
def Catches (s s' : LSQUnit) (k p : ℕ) : Prop :=
  TooLate s k p ∧ ∃ v, s'.memDepViolator = some v ∧ v ≤ (s.loads p).seqNum

/-- Store `k` executed in the run, too late for load `p`. -/
def CaughtBy (P : Params) (prog : ℕ → MemInst) (s0 : LSQUnit) (es : List Event) (s : LSQUnit)
    (k p : ℕ) : Prop :=
  ∃ before after s1 s2, es = before ++ .executeStore k :: after ∧ Steps P prog s0 before s1
    ∧ exec P prog s1 (.executeStore k) = .ok s2 ∧ Steps P prog s2 after s ∧ Catches s1 s2 k p

/-- Store `k` has not executed yet, and whenever it does it is too late for load `p`. -/
def Pending (P : Params) (prog : ℕ → MemInst) (s : LSQUnit) (k p : ℕ) : Prop :=
  k < (s.loads p).sqIt ∧ (s.stores k).executed = false
    ∧ (s.stores k).op.toAccess.Overlaps (s.loads p).access
    ∧ ∀ es s1 s2, Steps P prog s es s1 → enabled s1 (.executeStore k) = true →
      exec P prog s1 (.executeStore k) = .ok s2 → Catches s1 s2 k p

def InProgramOrder (P : Params) (prog : ℕ → MemInst) (value : ℕ → ℕ → Byte) (s0 : LSQUnit) : Prop :=
  ∀ es s, Steps P prog s0 es s → ∀ p v, p < s.loadTail → (s.loads p).result = some v →
    (∀ i, i < (s.loads p).access.size →
      v i = value (s.loads p).seqNum ((s.loads p).access.addr + i))
    ∨ (∃ k, CaughtBy P prog s0 es s k p) ∨ ∃ k, Pending P prog s k p

/-- The right value, by the addresses of memory. -/
def memoryValue (P : Params) (prog : ℕ → MemInst) (init : ℕ → Byte) (n b : ℕ) : Byte :=
  programValue P.paddr prog init n (P.paddr b)

/-- The right value, by the addresses of the program. -/
def virtualValue (P : Params) (prog : ℕ → MemInst) (init : ℕ → Byte) (n b : ℕ) : Byte :=
  programValue id prog (fun b => init (P.paddr b)) n b

/-! ## Runs -/

theorem Steps.trans (h : Steps P prog s es s') (h' : Steps P prog s' es' s'') :
    Steps P prog s (es ++ es') s'' := by
  induction h' with
  | nil => rw [append_nil]; exact h
  | snoc _ hen hexec ih =>
    rw [← append_assoc]
    exact .snoc ih hen hexec

theorem CaughtBy.trans (h : CaughtBy P prog s0 es s k p) (h' : Steps P prog s es' s') :
    CaughtBy P prog s0 (es ++ es') s' k p := by
  obtain ⟨before, after, s1, s2, hes, hbefore, hexec, hafter, hcatch⟩ := h
  refine ⟨before, after ++ es', s1, s2, ?_, hbefore, hexec, hafter.trans h', hcatch⟩
  rw [hes, append_assoc, cons_append]

/-- A store that executes catches the loads it is too late for. -/
theorem Inv.catches {caught : ℕ → Prop} (h : Inv P prog init caught s)
    (hsyn : NoSynonyms P.paddr prog) (hfit : SizesFit prog)
    (hen : enabled s (.executeStore k) = true) (hexec : exec P prog s (.executeStore k) = .ok s')
    (hp : p < s.loadTail) (hlate : TooLate s k p) : Catches s s' k p := by
  simp only [enabled, Bool.and_eq_true, decide_eq_true_eq, Bool.not_eq_true'] at hen
  obtain ⟨⟨-, hk⟩, hex⟩ := hen
  obtain ⟨-, -, -, hviol⟩ := (h.executeStore hsyn hfit hk hex).elim hexec
  exact ⟨hlate, hviol p hp hlate⟩

/-- **The invariant holds in every run.** The induction carries which loads are caught. -/
theorem Steps.inv (hsyn : NoSynonyms P.paddr prog) (hfit : SizesFit prog) {load : LoadInst}
    {store : StoreInst} (h : Steps P prog (LSQUnit.new init load store) es s) :
    Inv P prog init (fun p => ∃ k, CaughtBy P prog (LSQUnit.new init load store) es s k p) s := by
  induction h with
  | nil => exact inv_new init load store
  | @snoc es s1 s2 e hsteps hen hexec ih =>
    have hone : Steps P prog s1 [e] s2 := .snoc .nil hen hexec
    obtain ⟨hinv, hlater⟩ := ih.step hsyn hfit hen hexec
    refine hinv.mono ?_
    rintro p hp (⟨k, hc⟩ | ⟨k, rfl, hlate⟩)
    · exact ⟨k, hc.trans hone⟩
    · -- executing a store inserts nothing
      have hk := hen
      simp only [enabled, Bool.and_eq_true, decide_eq_true_eq, Bool.not_eq_true'] at hk
      obtain ⟨-, -, hsame, -⟩ := (ih.executeStore hsyn hfit hk.1.2 hk.2).elim hexec
      rw [hsame.loadTail] at hp
      exact ⟨k, es, [], s1, s2, rfl, hsteps, hexec, .nil, ih.catches hsyn hfit hen hexec hp hlate⟩

theorem Steps.later (hsyn : NoSynonyms P.paddr prog) (hfit : SizesFit prog)
    {caught : ℕ → Prop} (hinv : Inv P prog init caught s) (h : Steps P prog s es s') :
    Later s s' ∧ ∃ caught', Inv P prog init caught' s' := by
  induction h with
  | nil => exact ⟨.refl s, caught, hinv⟩
  | snoc _ hen hexec ih =>
    obtain ⟨hlater, caught', hinv'⟩ := ih
    obtain ⟨hinv'', hstep⟩ := hinv'.step hsyn hfit hen hexec
    exact ⟨hlater.trans hstep, _, hinv''⟩

/-! ## The value of a load -/

/-- The bytes that a store writes, by either kind of address. -/
theorem writesUpTo_id {op : StoreOp} {b c : ℕ} {tr : ℕ → ℕ} (hc : c ≤ op.size)
    (hinj : ∀ i < op.size, tr (op.addr + i) = tr b → op.addr + i = b) :
    op.writesUpTo id c b = op.writesUpTo tr c (tr b) := by
  induction c with
  | zero => rfl
  | succ c ih =>
    rw [StoreOp.writesUpTo, StoreOp.writesUpTo, ih (by omega), id]
    by_cases hb : op.addr + c = b
    · rw [if_pos hb, if_pos (by rw [hb])]
    · rw [if_neg hb, if_neg (fun heq => hb (hinj c (by omega) heq))]

/-- **The two readings of the right value agree** on the bytes of the program. -/
theorem virtualValue_eq (hsyn : NoSynonyms P.paddr prog) {n m b : ℕ}
    (hb : (prog m).access.Touches b) :
    virtualValue P prog init n b = memoryValue P prog init n b := by
  unfold virtualValue memoryValue programValue
  refine lastWrite_comp rfl ?_
  intro j _
  cases hj : prog j with
  | load a => rfl
  | store op =>
    refine writesUpTo_id (le_refl _) ?_
    intro i hi heq
    refine hsyn j m _ _ ?_ hb heq
    rw [hj]
    exact ⟨Nat.le_add_right _ _, Nat.add_lt_add_left hi _⟩

/-- A load that sees something else than program order gives has an older store that overlaps it
and has not executed. -/
theorem Order.exists_unexecuted (h : Order P prog init s) (hsyn : NoSynonyms P.paddr prog)
    {b : ℕ} (hp : p < s.loadTail) (hb : (s.loads p).access.Touches b)
    (hne : seen P init s (s.loads p).sqIt (P.paddr b)
      ≠ memoryValue P prog init (s.loads p).seqNum b) :
    ∃ k, k < (s.loads p).sqIt ∧ (s.stores k).executed = false
      ∧ (s.stores k).op.toAccess.Overlaps (s.loads p).access := by
  by_contra hnone
  apply hne
  rw [memoryValue, h.value_eq p hp]
  refine lastWrite_congr ?_
  intro k hk
  rw [executedWrites]
  by_cases hex : (s.stores k).executed = true
  · rw [if_pos hex]
  · have hapart : ¬ (s.stores k).op.toAccess.Overlaps (s.loads p).access :=
      fun hover => hnone ⟨k, hk, Bool.eq_false_of_not_eq_true hex, hover⟩
    rw [if_neg hex]
    exact (h.writes_eq_none hsyn hp (lt_of_lt_of_le hk (h.sqIt_le p hp)) hb (le_refl _) hapart).symm

/-- An older store that has not executed will be too late for a load that has. -/
theorem Inv.pending {caught : ℕ → Prop} (h : Inv P prog init caught s)
    (hsyn : NoSynonyms P.paddr prog) (hfit : SizesFit prog) (hp : p < s.loadTail)
    (hdone : (s.loads p).executed = true) (hk : k < (s.loads p).sqIt)
    (hex : (s.stores k).executed = false)
    (hover : (s.stores k).op.toAccess.Overlaps (s.loads p).access) : Pending P prog s k p := by
  refine ⟨hk, hex, hover, ?_⟩
  intro es s1 s2 hsteps hen hexec
  obtain ⟨hlater, caught', hinv⟩ := hsteps.later hsyn hfit h
  have hp' : p < s1.loadTail := lt_of_lt_of_le hp hlater.loadTail
  obtain ⟨-, hacc, hsq, hstay⟩ := hlater.loads p hp
  refine hinv.catches hsyn hfit hen hexec hp' ⟨by rw [hsq]; exact hk, ?_, ?_⟩
  · -- a load that has executed has its address
    by_contra hv
    have hidle := ((hinv.loads.ok p hp').idle (Bool.eq_false_of_not_eq_true hv)).2.2
    rw [hstay hdone] at hidle
    simp at hidle
  · rw [hlater.stores k (lt_of_lt_of_le hk (h.order.sqIt_le p hp)), hacc]
    exact hover

theorem inProgramOrder_memory (hsyn : NoSynonyms P.paddr prog) (hfit : SizesFit prog)
    (load : LoadInst) (store : StoreInst) :
    InProgramOrder P prog (memoryValue P prog init) (LSQUnit.new init load store) := by
  intro es s hsteps p v hp hv
  have hinv := hsteps.inv hsyn hfit
  have hok := hinv.loads.ok p hp
  by_cases hcaught : ∃ k, CaughtBy P prog (LSQUnit.new init load store) es s k p
  · exact .inr (.inl hcaught)
  · by_cases hright : ∀ i, i < (s.loads p).access.size →
        v i = memoryValue P prog init (s.loads p).seqNum ((s.loads p).access.addr + i)
    · exact .inl hright
    · -- the load saw everything that had executed, so something had not
      push Not at hright
      obtain ⟨i, hi, hne⟩ := hright
      rw [hok.result_eq hcaught v hv i hi] at hne
      obtain ⟨k, hk, hex, hover⟩ := hinv.order.exists_unexecuted hsyn hp
        ⟨Nat.le_add_right _ _, Nat.add_lt_add_left hi _⟩ hne
      have hdone := hok.executed_of (by rw [hv]; rfl)
      exact .inr (.inr ⟨k, hinv.pending hsyn hfit hp hdone hk hex hover⟩)

/-- **Out-of-order loads return program-order values or are caught**, if no two bytes of the
program are one byte of memory and the stores fit into their entries. -/
theorem loads_in_program_order (P : Params) (prog : ℕ → MemInst) (init : ℕ → Byte)
    (load : LoadInst) (store : StoreInst) (hsyn : NoSynonyms P.paddr prog)
    (hfit : SizesFit prog) :
    InProgramOrder P prog (memoryValue P prog init) (LSQUnit.new init load store)
      ∧ InProgramOrder P prog (virtualValue P prog init) (LSQUnit.new init load store) := by
  have hmem : InProgramOrder P prog (memoryValue P prog init) (LSQUnit.new init load store) :=
    inProgramOrder_memory hsyn hfit load store
  refine ⟨hmem, ?_⟩
  intro es s hsteps p v hp hv
  have hinst := (hsteps.inv hsyn hfit).order.load_inst p hp
  rcases hmem es s hsteps p v hp hv with hright | hcaught
  · refine .inl (fun i hi => ?_)
    rw [hright i hi]
    refine (virtualValue_eq hsyn (m := (s.loads p).seqNum) ?_).symm
    rw [hinst]
    exact ⟨Nat.le_add_right _ _, Nat.add_lt_add_left hi _⟩
  · exact .inr hcaught

def runEvents (P : Params) (prog : ℕ → MemInst) : LSQUnit → List Event → Option LSQUnit
  | s, [] => some s
  | s, e :: es =>
    if enabled s e then
      match exec P prog s e with
      | .ok s' => runEvents P prog s' es
      | .error _ => none
    else none

theorem steps_iff_runEvents : Steps P prog s es s' ↔ runEvents P prog s es = some s' := by
  constructor
  · intro h
    -- one more event at the end of a run
    have hsnoc : ∀ (es : List Event) (s s1 s2 : LSQUnit) (e : Event),
        runEvents P prog s es = some s1 → enabled s1 e = true → exec P prog s1 e = .ok s2 →
        runEvents P prog s (es ++ [e]) = some s2 := by
      intro es
      induction es with
      | nil =>
        intro s s1 s2 e hrun hen hexec
        cases hrun
        rw [nil_append, runEvents, if_pos hen, hexec]
        rfl
      | cons e' es ih =>
        intro s s1 s2 e hrun hen hexec
        rw [runEvents] at hrun
        rw [cons_append, runEvents]
        split at hrun
        next hen' =>
          rw [if_pos hen']
          cases hexec' : exec P prog s e' with
          | error f => rw [hexec'] at hrun; cases hrun
          | ok t =>
            rw [hexec'] at hrun
            exact ih t s1 s2 e hrun hen hexec
        next => cases hrun
    induction h with
    | nil => rfl
    | snoc _ hen hexec ih => exact hsnoc _ _ _ _ _ ih hen hexec
  · intro h
    induction es generalizing s with
    | nil => cases h; exact .nil
    | cons e es ih =>
      rw [runEvents] at h
      split at h
      next hen =>
        cases hexec : exec P prog s e with
        | error f => rw [hexec] at h; cases h
        | ok t =>
          rw [hexec] at h
          have hone : Steps P prog s [e] t := .snoc .nil hen hexec
          exact hone.trans (ih h)
      next => cases h

/-- Load `p` has no address yet whenever a store of the run executes. -/
def addressLast (P : Params) (prog : ℕ → MemInst) (s0 : LSQUnit) (es : List Event) (p : ℕ) : Bool :=
  (range es.length).all (fun n =>
    match es[n]? with
    | some (.executeStore _) =>
      (runEvents P prog s0 (es.take n)).all (fun s => !(s.loads p).effAddrValid)
    | _ => true)

theorem not_caughtBy (h : addressLast P prog s0 es p = true) :
    ¬ ∃ k, CaughtBy P prog s0 es s k p := by
  rintro ⟨k, before, after, s1, s2, hes, hbefore, -, -, ⟨-, hvalid, -⟩, -⟩
  have hn : before.length < es.length := by
    rw [hes, length_append, length_cons]
    omega
  have hat := all_eq_true.mp h before.length (mem_range.mpr hn)
  have hget : es[before.length]? = some (.executeStore k) := by
    rw [hes, getElem?_append_right (le_refl _), Nat.sub_self]
    rfl
  have htake : es.take before.length = before := by
    rw [hes, take_left]
  rw [hget, htake, steps_iff_runEvents.mp hbefore] at hat
  have hvalid' : (!(s1.loads p).effAddrValid) = true := hat
  rw [hvalid] at hvalid'
  simp at hvalid'

/-- A run in which a load has a wrong byte although all stores before it executed first. -/
theorem not_inProgramOrder (es : List Event) (p : ℕ) {value : ℕ → ℕ → Byte} (v : Byte)
    (hrun : (runEvents P prog s0 es).isSome = true)
    (hlast : addressLast P prog s0 es p = true)
    (hend : (runEvents P prog s0 es).all (fun s => decide (p < s.loadTail)
      && (range (s.loads p).sqIt).all (fun k => (s.stores k).executed)
      && decide (0 < (s.loads p).access.size)
      && ((s.loads p).result.map (fun d => d 0) == some v)
      && !(v == value (s.loads p).seqNum (s.loads p).access.addr)) = true) :
    ¬ InProgramOrder P prog value s0 := by
  intro hall
  obtain ⟨s, hs⟩ := Option.isSome_iff_exists.mp hrun
  rw [hs] at hend
  simp only [Option.all_some, Bool.and_eq_true, decide_eq_true_eq, beq_iff_eq, Bool.not_eq_true',
    beq_eq_false_iff_ne, all_eq_true, mem_range] at hend
  obtain ⟨⟨⟨⟨hp, hstores⟩, hsize⟩, hres⟩, hne⟩ := hend
  obtain ⟨d, hd, hd0⟩ := Option.map_eq_some_iff.mp hres
  rcases hall es s (steps_iff_runEvents.mpr hs) p d hp hd with hright | hcaught | ⟨k, hpend⟩
  · exact hne (by rw [← hd0]; exact hright 0 hsize)
  · exact not_caughtBy hlast hcaught
  · have hex := hstores k hpend.1
    rw [hpend.2.1] at hex
    simp at hex

/-! ## What the two conditions exclude -/

/-- A unit with the given cache lines and translation. -/
def paramsWith (bits : ℕ) (paddr : ℕ → ℕ)
    (h : ∀ a i, a % 2 ^ bits + i < 2 ^ bits → paddr (a + i) = paddr a + i) : Params where
  lqEntries := 8
  sqEntries := 8
  depCheckShift := 4
  checkLoads := true
  needsTSO := false
  cacheLineBits := bits
  paddr := paddr
  paddr_add := h

def byteAt (addr : ℕ) (h : addr + 1 < 2 ^ 64) : Access :=
  { addr := addr, size := 1, size_pos := Nat.one_pos, no_wrap := h }

def storeByte (addr : ℕ) (v : Byte) (h : addr + 1 < 2 ^ 64) : StoreOp where
  toAccess := byteAt addr h
  data := fun _ => v
  storeNoData := false
  size_le := Or.inl (show 1 ≤ 64 by decide)

/-- An empty unit with this memory. -/
def emptyUnit (init : ℕ → Byte) : LSQUnit :=
  LSQUnit.new init { seqNum := 0, access := byteAt 0 (by decide), sqIt := 0 }
    { seqNum := 0, op := storeByte 0 0 (by decide), lqIt := 0 }

/-- Two stores through two addresses, then two loads of the first. -/
def synonymProg : ℕ → MemInst
  | 0 => .store (storeByte 0 1 (by decide))
  | 1 => .store (storeByte 64 2 (by decide))
  | _ => .load (byteAt 0 (by decide))

/-- All cache lines are the first one. -/
def oneLine : Params := paramsWith 6 (· % 64) (fun a i h => by
  have h64 : a % 64 + i < 64 := h
  omega)

/-- The first load gets the data of the first store; the second one executes after both stores
are in memory. -/
def synonymRun : List Event :=
  [.insert, .insert, .insert, .insert, .executeStore 0, .executeStore 1, .executeLoad 0 [],
    .processWriteback 0, .commit 2, .writebackStores [true, true, true, true],
    .executeLoad 1 [true], .recvLoadResp 1]

/-- A store of 256 zeros, which has size 0 in its entry, and a load. -/
def wideProg : ℕ → MemInst
  | 0 => .store
      { addr := 0, size := 256, size_pos := by decide, no_wrap := by decide, data := fun _ => 0,
        storeNoData := true, size_le := Or.inr rfl }
  | _ => .load (byteAt 0 (by decide))

def wideLine : Params := paramsWith 8 id (fun _ _ _ => rfl)

def wideRun : List Event :=
  [.insert, .insert, .executeStore 0, .executeLoad 0 [true], .recvLoadResp 0]

theorem synonymProg_sizesFit : SizesFit synonymProg := by
  intro n op hop
  match n, hop with
  | 0, hop => cases hop; decide
  | 1, hop => cases hop; decide

/-- The same program and run, with a translation that keeps the two addresses apart: both loads
get the data of the first store. -/
theorem loads_in_program_order_apart :
    (runEvents wideLine synonymProg (emptyUnit (fun _ => 0)) synonymRun).all (fun s =>
        (s.loads 0).result.map (fun d => d 0) == some 1
          && (s.loads 1).result.map (fun d => d 0) == some 1) = true
      ∧ InProgramOrder wideLine synonymProg (memoryValue wideLine synonymProg (fun _ => 0))
        (emptyUnit (fun _ => 0))
      ∧ InProgramOrder wideLine synonymProg (virtualValue wideLine synonymProg (fun _ => 0))
        (emptyUnit (fun _ => 0)) :=
  ⟨by decide +kernel, loads_in_program_order wideLine synonymProg (fun _ => 0) _ _
    (fun _ _ _ _ _ _ heq => heq) synonymProg_sizesFit⟩

/-- **Neither condition can be left out.** With two addresses for one byte of memory a load has a
wrong value by either reading; and a store whose size does not fit is not seen at all. -/
theorem loads_out_of_program_order :
    (SizesFit synonymProg
        ∧ ¬ InProgramOrder oneLine synonymProg (memoryValue oneLine synonymProg (fun _ => 0))
          (emptyUnit (fun _ => 0))
        ∧ ¬ InProgramOrder oneLine synonymProg (virtualValue oneLine synonymProg (fun _ => 0))
          (emptyUnit (fun _ => 0)))
      ∧ NoSynonyms wideLine.paddr wideProg
      ∧ ¬ InProgramOrder wideLine wideProg (memoryValue wideLine wideProg (fun _ => 7))
          (emptyUnit (fun _ => 7)) := by
  refine ⟨⟨synonymProg_sizesFit, ?_, ?_⟩, ?_, ?_⟩
  · exact not_inProgramOrder synonymRun 0 1 (by decide +kernel)
      (by decide +kernel) (by decide +kernel)
  · exact not_inProgramOrder synonymRun 1 2 (by decide +kernel)
      (by decide +kernel) (by decide +kernel)
  · exact fun _ _ _ _ _ _ heq => heq
  · exact not_inProgramOrder wideRun 0 7 (by decide +kernel) (by decide +kernel) (by decide +kernel)

end Lsq

end Bindu.O3
