/-
Runs of the load and store queues.

The instructions of a program are inserted in order. Loads and stores that are in the queues
execute in any order, a load also again while it is not issued. Stores that have executed are
committed in program order, and written back when the cache takes them. Responses come when
they come.

In every such run a load that has a value has at every byte the value of program order, or an
older store that overlaps it executes after it, and then the violator of the unit is that load or
an older one. Two things are needed for that. The unit compares virtual addresses, so different
bytes must not be the same byte of memory. And the size of a store has to fit into its entry.
-/
import Bindu.O3.LsqViolations

open Bindu.Lib Nat

namespace Bindu.O3

namespace Lsq

/-! ## Events -/

inductive Event
  | insert
  | executeLoad (p : ℕ) (answers : List Bool)
  | executeStore (k : ℕ)
  | writebackStores (answers : List Bool)
  | recvRetry (answers : List Bool)
  | commit (youngest_inst : ℕ)
  | recvLoadResp (p : ℕ)
  | recvStoreResp (k : ℕ)
  | processWriteback (p : ℕ)
  | getMemDepViolator

/-- A packet of the request is under way. -/
def Outstanding (r : Option Request) : Bool := r.any (fun r => 0 < r.numOutstandingPackets)

/-- When an event may happen. Instructions commit in order, after they have executed. -/
def enabled (s : LSQUnit) : Event → Bool
  | .executeLoad p _ => s.loadHead ≤ p && p < s.loadTail && !(s.loads p).issued
      && !(s.loads p).executed
  | .executeStore k => s.storeHead ≤ k && k < s.storeTail && !(s.stores k).executed
  | .commit y =>
    (List.range s.loadTail).all (fun p => p < s.loadHead || y < (s.loads p).seqNum
      || (s.loads p).executed)
    && (List.range s.storeTail).all (fun k => k < s.storeHead || y < (s.stores k).seqNum
      || (s.stores k).executed)
  | .recvLoadResp p => p < s.loadTail && Outstanding (s.loads p).request
  | .recvStoreResp k => k < s.storeTail && Outstanding (s.stores k).request
  | .processWriteback p => p < s.loadTail && (s.loads p).writebackScheduled
  | _ => true

def exec (P : Params) (prog : ℕ → MemInst) (s : LSQUnit) : Event → Except Fault LSQUnit
  | .insert => s.insert P (prog s.inserted)
  | .executeLoad p answers => { s with answers := answers }.executeLoad P p
  | .executeStore k => s.executeStore P k
  | .writebackStores answers => { s with answers := answers }.writebackStores P
  | .recvRetry answers => { s with answers := answers }.recvRetry P
  | .commit y => return s.commit y
  | .recvLoadResp p => s.recvLoadResp P p
  | .recvStoreResp k => s.recvStoreResp P k
  | .processWriteback p => return s.processWriteback p
  | .getMemDepViolator => return s.getMemDepViolator

/-- The events `es` lead from one state to another. -/
inductive Steps (P : Params) (prog : ℕ → MemInst) (s : LSQUnit) : List Event → LSQUnit → Prop
  | nil : Steps P prog s [] s
  | snoc {es : List Event} {s1 s2 : LSQUnit} {e : Event} : Steps P prog s es s1 →
      enabled s1 e = true → exec P prog s1 e = .ok s2 → Steps P prog s (es ++ [e]) s2

variable {P : Params} {prog : ℕ → MemInst} {init : ℕ → Byte} {caught : ℕ → Prop}
variable {s s' s'' : LSQUnit}

/-! ## What every step keeps -/

/-- What stays as it was of the instructions in the queues, also when others are inserted. -/
structure Later (s s' : LSQUnit) : Prop where
  loadTail : s.loadTail ≤ s'.loadTail
  storeTail : s.storeTail ≤ s'.storeTail
  loads : ∀ p, p < s.loadTail → (s'.loads p).seqNum = (s.loads p).seqNum
    ∧ (s'.loads p).access = (s.loads p).access ∧ (s'.loads p).sqIt = (s.loads p).sqIt
    ∧ ((s.loads p).executed = true → (s'.loads p).executed = true)
  stores : ∀ k, k < s.storeTail → (s'.stores k).op = (s.stores k).op

namespace Later

theorem refl (s : LSQUnit) : Later s s :=
  ⟨le_refl _, le_refl _, fun _ _ => ⟨rfl, rfl, rfl, fun h => h⟩, fun _ _ => rfl⟩

theorem trans (h : Later s s') (h' : Later s' s'') : Later s s'' where
  loadTail := le_trans h.loadTail h'.loadTail
  storeTail := le_trans h.storeTail h'.storeTail
  loads p hp := by
    obtain ⟨h1, h2, h3, h4⟩ := h.loads p hp
    obtain ⟨h1', h2', h3', h4'⟩ := h'.loads p (lt_of_lt_of_le hp h.loadTail)
    exact ⟨h1'.trans h1, h2'.trans h2, h3'.trans h3, fun hex => h4' (h4 hex)⟩
  stores k hk := (h'.stores k (lt_of_lt_of_le hk h.storeTail)).trans (h.stores k hk)

theorem of_same (h : SameProgram s s')
    (hex : ∀ p, (s.loads p).executed = true → (s'.loads p).executed = true) : Later s s' where
  loadTail := le_of_eq h.loadTail.symm
  storeTail := le_of_eq h.storeTail.symm
  loads p _ := ⟨(h.loads p).1, (h.loads p).2.1, (h.loads p).2.2, hex p⟩
  stores k _ := (h.stores k).2.1

theorem of_loadFrame {p : ℕ} (h : LoadFrame p s s') : Later s s' :=
  of_same h.program (fun _ hex => h.executed_all hex)

theorem of_storeFrame (h : StoreFrame s s') : Later s s' :=
  of_same h.program (fun p hex => by rw [h.loads]; exact hex)

end Later

theorem Inv.mono {caught' : ℕ → Prop} (h : Inv P prog init caught s)
    (hc : ∀ p < s.loadTail, caught p → caught' p) : Inv P prog init caught' s :=
  ⟨h.order, h.stores,
    ⟨fun p hp => (h.loads.ok p hp).mono (hc p hp), h.loads.head_le, h.loads.popped⟩⟩

theorem StoreStep.inv (h : StoreStep P init s s') (hinv : Inv P prog init caught s) :
    Inv P prog init caught s' :=
  ⟨hinv.order.of_same h.frame.program, h.ok, h.frame.loadsOk hinv.loads⟩

theorem Inv.of_view (h : Inv P prog init caught s) (s' : LSQUnit) (hv : s'.view = s.view) :
    Inv P prog init caught s' ∧ Later s s' := by
  have hstep := h.stores.of_view hv
  exact ⟨hstep.inv h, .of_storeFrame hstep.frame⟩

theorem inv_new (init : ℕ → Byte) (load : LoadInst) (store : StoreInst) :
    Inv P prog init caught (LSQUnit.new init load store) := by
  have hnot : ∀ n, ¬ n < 0 := not_lt_zero
  refine ⟨?_, ?_, ?_⟩
  · exact ⟨fun p hp => absurd hp (hnot p), fun k hk => absurd hk (hnot k),
      fun p hp => absurd hp (hnot p), fun k hk => absurd hk (hnot k),
      fun _ q _ hq => absurd hq (hnot q), fun p hp => absurd hp (hnot p),
      fun k hk => absurd hk (hnot k), fun p _ hp => absurd hp (hnot p),
      fun p _ hp => absurd hp (hnot p), fun p hp => absurd hp (hnot p), fun _ => rfl⟩
  · exact ⟨fun k hk => absurd hk (hnot k), le_refl _, fun k hk => absurd hk (hnot k),
      fun k _ hk => absurd hk (hnot k), Bool.false_ne_true.elim,
      fun k _ hk => absurd hk (hnot k), fun _ => rfl⟩
  · exact ⟨fun p hp => absurd hp (hnot p), le_refl _, fun p hp => absurd hp (hnot p)⟩

/-! ## Inserting -/

/-- **Inserting a load.** -/
theorem Inv.insertLoad {a : Access} (h : Inv P prog init caught s)
    (hprog : prog s.inserted = .load a) :
    Ok (fun s' => Inv P prog init caught s' ∧ Later s s') ⊤ (s.insertLoad P a) := by
  unfold LSQUnit.insertLoad
  refine Ok.assert (fun _ => ?_)
  have ho := h.order
  have hnew := fun l => s.setLoad_self s.loadTail l
  have hold := fun l p (hp : p < s.loadTail) => s.setLoad_of_ne (Nat.ne_of_lt hp) l
  -- a position is that of the new load or an old one
  have hcases : ∀ p, p < s.loadTail + 1 → p = s.loadTail ∨ p < s.loadTail := by omega
  refine ⟨⟨⟨fun p hp => ?_, ho.store_inst, fun p hp => ?_,
    fun k hk => lt_succ_of_lt (ho.store_lt k hk), fun p q hpq hq => ?_, fun p hp => ?_,
    fun k hk => le_succ_of_le (ho.lqIt_le k hk), fun p k hp hk => ?_, fun p k hp hk => ?_,
    fun p hp b => ?_, fun b => ?_⟩,
    ⟨h.stores.ok, h.stores.wb_le, h.stores.sent, h.stores.waiting, h.stores.blocked,
      fun k p hk hp hcan hle => ?_, h.stores.memory_eq⟩,
    ⟨fun p hp => ?_, le_succ_of_le h.loads.head_le, fun p hp => ?_⟩⟩,
    ⟨le_succ _, le_refl _, fun p hp => ?_, fun _ _ => rfl⟩⟩
  all_goals dsimp only at *
  · rcases hcases p hp with rfl | hp
    · rw [hnew, hprog]
    · rw [hold _ p hp]; exact ho.load_inst p hp
  · rcases hcases p hp with rfl | hp
    · rw [hnew]; exact lt_succ_self _
    · rw [hold _ p hp]; exact lt_succ_of_lt (ho.load_lt p hp)
  · rcases hcases q hq with rfl | hq
    · rw [hnew, hold _ p hpq]; exact ho.load_lt p hpq
    · rw [hold _ p (by omega), hold _ q hq]; exact ho.load_mono p q hpq hq
  · rcases hcases p hp with rfl | hp
    · rw [hnew]; rfl
    · rw [hold _ p hp]; exact ho.sqIt_le p hp
  · rcases hcases p hp with rfl | hp
    · rw [hnew]; exact iff_of_true hk (ho.store_lt k hk)
    · rw [hold _ p hp]; exact ho.older_iff p k hp hk
  · rcases hcases p hp with rfl | hp
    · rw [hnew]; exact iff_of_true (ho.lqIt_le k hk) (ho.store_lt k hk)
    · rw [hold _ p hp]; exact ho.younger_iff p k hp hk
  · rcases hcases p hp with rfl | hp
    · rw [hnew]; exact ho.value_all b
    · rw [hold _ p hp]; exact ho.value_eq p hp b
  · rw [programValue, lastWrite, hprog]
    exact ho.value_all b
  · rcases hcases p hp with rfl | hp
    · -- the new load is after every store
      rw [hnew] at hle
      exact absurd hk (not_lt.mpr hle)
    · rw [hold _ p hp] at hle ⊢
      exact h.stores.loads_executed k p hk hp hcan hle
  · rcases hcases p hp with rfl | hp
    · -- a load that was just inserted has nothing yet
      rw [hnew]
      exact ⟨Bool.false_ne_true.elim, fun _ => ⟨rfl, rfl, rfl⟩, Bool.false_ne_true.elim,
        Bool.false_ne_true.elim, zero_le _, fun _ i hi => absurd hi (not_lt_zero i),
        fun _ v hv => absurd hv (Option.some_ne_none v).symm⟩
    · rw [hold _ p hp]; exact h.loads.ok p hp
  · rw [hold _ p (lt_of_lt_of_le hp h.loads.head_le)]
    exact h.loads.popped p hp
  · rw [hold _ p hp]
    exact ⟨rfl, rfl, rfl, fun hex => hex⟩

/-- **Inserting a store.** -/
theorem Inv.insertStore {op : StoreOp} (h : Inv P prog init caught s)
    (hprog : prog s.inserted = .store op) :
    Ok (fun s' => Inv P prog init caught s' ∧ Later s s') ⊤ (s.insertStore P op) := by
  unfold LSQUnit.insertStore
  refine Ok.assert (fun _ => ?_)
  have ho := h.order
  have hs := h.stores
  have hnew := fun st => s.setStore_self s.storeTail st
  have hold := fun st k (hk : k < s.storeTail) => s.setStore_of_ne (Nat.ne_of_lt hk) st
  have hcases : ∀ k, k < s.storeTail + 1 → k = s.storeTail ∨ k < s.storeTail := by omega
  -- writes that are read off the stores one by one are the same up to the new store
  have hlast : ∀ (w : StoreInst → ℕ → Option Byte) (st : StoreInst) (n : ℕ), n ≤ s.storeTail →
      lastWrite (fun k => w ((s.setStore s.storeTail st).stores k)) init n
        = lastWrite (fun k => w (s.stores k)) init n := by
    intro w st n hn
    funext b
    refine lastWrite_congr (fun k hk => ?_)
    rw [hold st k (by omega)]
  refine ⟨⟨⟨ho.load_inst, fun k hk => ?_, fun p hp => lt_succ_of_lt (ho.load_lt p hp),
    fun k hk => ?_, ho.load_mono, fun p hp => le_succ_of_le (ho.sqIt_le p hp),
    fun k hk => ?_, fun p k hp hk => ?_, fun p k hp hk => ?_, fun p hp b => ?_, fun b => ?_⟩,
    ⟨fun k hk => ?_, le_succ_of_le hs.wb_le, fun k hk => ?_, fun k hk hkt => ?_,
      fun hb => ?_, fun k p hk hp hcan hle => ?_, fun b => ?_⟩,
    ⟨fun p hp => ?_, h.loads.head_le, h.loads.popped⟩⟩,
    ⟨le_refl _, le_succ _, fun _ _ => ⟨rfl, rfl, rfl, fun hex => hex⟩, fun k hk => ?_⟩⟩
  all_goals dsimp only at *
  · rcases hcases k hk with rfl | hk
    · rw [hnew, hprog]
    · rw [hold _ k hk]; exact ho.store_inst k hk
  · rcases hcases k hk with rfl | hk
    · rw [hnew]; exact lt_succ_self _
    · rw [hold _ k hk]; exact lt_succ_of_lt (ho.store_lt k hk)
  · rcases hcases k hk with rfl | hk
    · rw [hnew]; rfl
    · rw [hold _ k hk]; exact ho.lqIt_le k hk
  · rcases hcases k hk with rfl | hk
    · rw [hnew]
      exact iff_of_false (not_lt.mpr (ho.sqIt_le p hp)) (not_lt.mpr (ho.load_lt p hp).le)
    · rw [hold _ k hk]; exact ho.older_iff p k hp hk
  · rcases hcases k hk with rfl | hk
    · rw [hnew]
      exact iff_of_false (not_le.mpr hp) (not_lt.mpr (ho.load_lt p hp).le)
    · rw [hold _ k hk]; exact ho.younger_iff p k hp hk
  · refine (ho.value_eq p hp b).trans (congrFun ?_ b)
    exact (hlast (fun st => st.op.writes P.paddr) _ _ (ho.sqIt_le p hp)).symm
  · rw [programValue, lastWrite, hprog, lastWrite, hnew,
      hlast (fun st => st.op.writes P.paddr) _ _ (le_refl _)]
    exact congrArg _ (ho.value_all b)
  · rcases hcases k hk with rfl | hk
    · -- a store that was just inserted has nothing yet
      rw [hnew]
      exact ⟨Bool.false_ne_true.elim, Bool.false_ne_true.elim, fun _ => ⟨rfl, rfl⟩,
        Bool.false_ne_true.elim, Bool.false_ne_true.elim, zero_le _, (lt_irrefl 0).elim⟩
    · rw [hold _ k hk]; exact hs.ok k hk
  · rw [hold _ k (lt_of_lt_of_le hk hs.wb_le)]
    exact hs.sent k hk
  · rcases hcases k hkt with rfl | hkt
    · rw [hnew]
    · rw [hold _ k hkt]; exact hs.waiting k hk hkt
  · obtain ⟨hlt, hrest⟩ := hs.blocked hb
    refine ⟨lt_succ_of_lt hlt, ?_⟩
    rw [show (s.setStore s.storeTail _).storeWBIt = s.storeWBIt from rfl, hold _ _ hlt]
    exact hrest
  · rcases hcases k hk with rfl | hk
    · rw [hnew] at hcan
      exact absurd hcan Bool.false_ne_true
    · rw [hold _ k hk] at hcan
      exact hs.loads_executed k p hk hp hcan hle
  · rw [lastWrite, sentWrites, hnew, StoreInst.sentBytes, sentPackets, Params.bytesSent_zero,
      StoreOp.writesUpTo, Option.getD_none]
    refine (hs.memory_eq b).trans (congrFun ?_ b)
    exact (hlast (fun st => st.op.writesUpTo P.paddr (st.sentBytes P)) _ _ (le_refl _)).symm
  · refine (congrArg (LoadOk P · (caught p) (s.loads p)) ?_).mpr (h.loads.ok p hp)
    exact hlast (fun st a => if st.executed then st.op.writes P.paddr a else none) _ _
      (ho.sqIt_le p hp)
  · rw [hold _ k hk]

/-! ## Committing -/

theorem commitLoads_inv {y : ℕ} (n : ℕ) (h : Inv P prog init caught s)
    (hn : s.loadHead + n ≤ s.loadTail)
    (hex : ∀ p, s.loadHead ≤ p → p < s.loadTail → (s.loads p).seqNum ≤ y →
      (s.loads p).executed = true) :
    Inv P prog init caught (LSQUnit.commitLoads y n s) ∧ Later s (LSQUnit.commitLoads y n s) := by
  induction n generalizing s with
  | zero => exact ⟨h, .refl s⟩
  | succ n ih =>
    unfold LSQUnit.commitLoads
    split
    next hle =>
      have hhead : s.loadHead < s.loadTail := by omega
      have hpop : Inv P prog init caught { s with loadHead := s.loadHead + 1 } := by
        refine ⟨{ h.order with }, { h.stores with }, ⟨h.loads.ok, hhead, ?_⟩⟩
        intro p hp
        have hp' : p < s.loadHead + 1 := hp
        by_cases hph : p = s.loadHead
        · rw [hph]; exact hex _ (le_refl _) hhead hle
        · exact h.loads.popped p (by omega)
      have hlater : Later s { s with loadHead := s.loadHead + 1 } :=
        ⟨le_refl _, le_refl _, fun _ _ => ⟨rfl, rfl, rfl, fun hx => hx⟩, fun _ _ => rfl⟩
      obtain ⟨hinv, hrest⟩ := ih hpop (by exact (by omega : s.loadHead + 1 + n ≤ s.loadTail))
        (fun p hp => hex p (le_of_succ_le hp))
      exact ⟨hinv, hlater.trans hrest⟩
    next => exact ⟨h, .refl s⟩

/-- **Committing keeps the invariant**, if what is committed has executed. -/
theorem Inv.commit {y : ℕ} (h : Inv P prog init caught s)
    (hloads : ∀ p, s.loadHead ≤ p → p < s.loadTail → (s.loads p).seqNum ≤ y →
      (s.loads p).executed = true)
    (hstores : ∀ k, s.storeHead ≤ k → k < s.storeTail → (s.stores k).seqNum ≤ y →
      (s.stores k).executed = true) :
    Inv P prog init caught (s.commit y) ∧ Later s (s.commit y) := by
  -- the stores that commit have executed, and so have the loads before them
  have hcan : ∀ k, s.storeHead ≤ k → k < s.storeTail → (s.stores k).seqNum ≤ y → CanCommit s k := by
    intro k hk hkt hseq
    refine ⟨hstores k hk hkt hseq, ?_⟩
    intro p hp hsq
    have holder := mt (h.order.older_iff p k hp hkt).mpr (not_lt.mpr hsq)
    by_cases hhead : p < s.loadHead
    · exact h.loads.popped p hhead
    · exact hloads p (by omega) hp (by omega)
  have hstep : StoreStep P init s
      (LSQUnit.commitStores y (s.storeTail - s.storeHead) s.storeHead s) := by
    by_cases hle : s.storeHead ≤ s.storeTail
    · exact storeStep_commitStores _ h.stores (by omega) hcan
    · rw [Nat.sub_eq_zero_of_le (by omega)]
      exact ⟨h.stores, .refl s⟩
  unfold LSQUnit.commit
  generalize LSQUnit.commitStores y (s.storeTail - s.storeHead) s.storeHead s = t at hstep ⊢
  have hinv := hstep.inv h
  obtain ⟨hinv', hlater⟩ := commitLoads_inv (t.loadTail - t.loadHead) hinv
    (by have hle := hinv.loads.head_le; omega) (by
      intro p hp hpt hseq
      rw [hstep.frame.loadHead] at hp
      rw [hstep.frame.program.loadTail] at hpt
      rw [hstep.frame.loads] at hseq ⊢
      exact hloads p hp hpt hseq)
  exact ⟨hinv', (Later.of_storeFrame hstep.frame).trans hlater⟩

/-! ## One step -/

/-- The loads that a step comes too late for. -/
def Late (s : LSQUnit) (e : Event) (p : ℕ) : Prop := ∃ k, e = .executeStore k ∧ TooLate s k p

theorem outstanding_pos {req : Option Request} (h : Outstanding req = true) (r : Request)
    (hr : req = some r) : 0 < r.numOutstandingPackets := by
  rw [hr] at h
  exact of_decide_eq_true h

/-- **Every step keeps the invariant**, and the loads it comes too late for are caught. -/
theorem Inv.step (h : Inv P prog init caught s) (hsyn : NoSynonyms P.paddr prog)
    (hfit : SizesFit prog) {e : Event} (hen : enabled s e = true)
    (hexec : exec P prog s e = .ok s') :
    Inv P prog init (fun p => caught p ∨ Late s e p) s' ∧ Later s s' := by
  -- all steps but the execution of a store keep the loads that are caught as they were
  have hkeep : Inv P prog init caught s' ∧ Later s s' →
      Inv P prog init (fun p => caught p ∨ Late s e p) s' ∧ Later s s' :=
    fun hk => ⟨hk.1.mono (fun _ _ => .inl), hk.2⟩
  cases e with
  | insert =>
    refine hkeep ?_
    cases hp : prog s.inserted with
    | load a =>
      rw [exec, hp] at hexec
      exact (h.insertLoad hp).elim hexec
    | store op =>
      rw [exec, hp] at hexec
      exact (h.insertStore hp).elim hexec
  | executeLoad p answers =>
    refine hkeep ?_
    simp only [enabled, Bool.and_eq_true, decide_eq_true_eq, Bool.not_eq_true'] at hen
    obtain ⟨⟨⟨-, hp⟩, hissued⟩, -⟩ := hen
    obtain ⟨hinv, hlater⟩ := h.of_view { s with answers := answers } rfl
    obtain ⟨hinv', hframe⟩ := (hinv.executeLoad hsyn hp hissued).elim hexec
    exact ⟨hinv', hlater.trans (.of_loadFrame hframe)⟩
  | executeStore k =>
    simp only [enabled, Bool.and_eq_true, decide_eq_true_eq, Bool.not_eq_true'] at hen
    obtain ⟨⟨-, hk⟩, hex⟩ := hen
    obtain ⟨hinv, hcore, hsame, -⟩ := (h.executeStore hsyn hfit hk hex).elim hexec
    refine ⟨hinv.mono ?_, .of_same hsame ?_⟩
    · rintro p - (hc | hlate)
      · exact .inl hc
      · exact .inr ⟨k, rfl, hlate⟩
    · intro p hx
      exact (congrArg LoadInst.executed (hcore p)).trans hx
  | writebackStores answers =>
    refine hkeep ?_
    obtain ⟨hinv, hlater⟩ := h.of_view { s with answers := answers } rfl
    have hstep := (storeStep_writebackStores hinv.stores).elim hexec
    exact ⟨hstep.inv hinv, hlater.trans (.of_storeFrame hstep.frame)⟩
  | recvRetry answers =>
    refine hkeep ?_
    obtain ⟨hinv, hlater⟩ := h.of_view { s with answers := answers } rfl
    have hstep := (storeStep_recvRetry hinv.stores).elim hexec
    exact ⟨hstep.inv hinv, hlater.trans (.of_storeFrame hstep.frame)⟩
  | commit y =>
    refine hkeep ?_
    simp only [enabled, Bool.and_eq_true, List.all_eq_true, List.mem_range, Bool.or_eq_true,
      decide_eq_true_eq] at hen
    obtain ⟨hloads, hstores⟩ := hen
    rw [← Except.ok.inj hexec]
    refine h.commit ?_ ?_
    · intro p hp hpt hseq
      rcases hloads p hpt with (hlt | hlt) | hx
      · omega
      · omega
      · exact hx
    · intro k hk hkt hseq
      rcases hstores k hkt with (hlt | hlt) | hx
      · omega
      · omega
      · exact hx
  | recvLoadResp p =>
    refine hkeep ?_
    simp only [enabled, Bool.and_eq_true, decide_eq_true_eq] at hen
    have hstep := (h.recvLoadResp hen.1 (outstanding_pos hen.2)).elim hexec
    exact ⟨hstep.inv h, .of_loadFrame hstep.frame⟩
  | recvStoreResp k =>
    refine hkeep ?_
    simp only [enabled, Bool.and_eq_true, decide_eq_true_eq] at hen
    have hstep := (storeStep_recvStoreResp h.stores hen.1 (outstanding_pos hen.2)).elim hexec
    exact ⟨hstep.inv h, .of_storeFrame hstep.frame⟩
  | processWriteback p =>
    refine hkeep ?_
    simp only [enabled, Bool.and_eq_true, decide_eq_true_eq] at hen
    rw [← Except.ok.inj hexec]
    have hstep := h.processWriteback hen.1 hen.2
    exact ⟨hstep.inv h, .of_loadFrame hstep.frame⟩
  | getMemDepViolator =>
    refine hkeep ?_
    rw [← Except.ok.inj hexec]
    exact h.of_view _ rfl

end Lsq

end Bindu.O3
