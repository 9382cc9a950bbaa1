/-
The loads: executing them, and what they see.

A load that executes looks at the stores before it that are not written back. Memory has the
others whole, and nothing of any store after the load, because a store is written back only
after the loads before it have executed. So where no store of the queue overlaps the load,
memory is what the load sees, and where one does, the youngest of them is.
-/
import Bindu.O3.LsqStores

open Bindu.Lib

namespace Bindu.O3

namespace Lsq

open LSQUnit

variable {P : Params} {prog : ℕ → MemInst} {init : ℕ → Byte} {caught : ℕ → Prop}
variable {s s' s'' : LSQUnit}

/-! ## Steps of one load -/

/-- A load without the flag for other processors' writes, which nothing here reads. -/
def LoadInst.core (l : LoadInst) : LoadInst := { l with possibleLoadViolation := false }

variable {sn : ℕ → Byte} {l : LoadInst} {c : Prop}

theorem LoadOk.core_iff :
    LoadOk P sn c l.core ↔ LoadOk P sn c l := by
  constructor
  · intro h
    exact { h with }
  · intro h
    exact { h with }

theorem LoadOk.of_core {l l' : LoadInst} (h : LoadOk P sn c l)
    (heq : l'.core = l.core) : LoadOk P sn c l' := by
  rw [← LoadOk.core_iff, heq, LoadOk.core_iff]
  exact h

/-- A step that changes nothing but load `p`, and flags of the unit. -/
structure LoadFrame (p : ℕ) (s s' : LSQUnit) : Prop where
  program : SameProgram s s'
  stores : s'.stores = s.stores
  storeWBIt : s'.storeWBIt = s.storeWBIt
  isStoreBlocked : s'.isStoreBlocked = s.isStoreBlocked
  memory : s'.memory = s.memory
  loadHead : s'.loadHead = s.loadHead
  others : ∀ q, q ≠ p → (s'.loads q).core = (s.loads q).core
  executed : (s.loads p).executed = true → (s'.loads p).executed = true

namespace LoadFrame

variable {p : ℕ}

theorem of_view (hv : s'.view = s.view) : LoadFrame p s s' := by
  have h : LoadFrame p s s'.view := by
    rw [hv]
    exact ⟨.of_view rfl, rfl, rfl, rfl, rfl, rfl, fun _ _ => rfl, id⟩
  exact { h with program := .of_view hv }

theorem refl (p : ℕ) (s : LSQUnit) : LoadFrame p s s := .of_view rfl

theorem trans (h : LoadFrame p s s') (h' : LoadFrame p s' s'') : LoadFrame p s s'' where
  program := h.program.trans h'.program
  stores := h'.stores.trans h.stores
  storeWBIt := h'.storeWBIt.trans h.storeWBIt
  isStoreBlocked := h'.isStoreBlocked.trans h.isStoreBlocked
  memory := h'.memory.trans h.memory
  loadHead := h'.loadHead.trans h.loadHead
  others q hq := (h'.others q hq).trans (h.others q hq)
  executed hex := h'.executed (h.executed hex)

theorem setLoad (h : l.seqNum = (s.loads p).seqNum
    ∧ l.access = (s.loads p).access ∧ l.sqIt = (s.loads p).sqIt)
    (hex : (s.loads p).executed = true → l.executed = true) :
    LoadFrame p s (s.setLoad p l) where
  program := .setLoad h
  stores := rfl
  storeWBIt := rfl
  isStoreBlocked := rfl
  memory := rfl
  loadHead := rfl
  others q hq := by rw [s.setLoad_of_ne hq]
  executed hp := by rw [s.setLoad_self]; exact hex hp

theorem seen_eq (h : LoadFrame p s s') : seen P init s' = seen P init s := by
  funext n a
  refine lastWrite_congr ?_
  intro k _
  rw [executedWrites, executedWrites, h.stores]

theorem executed_all (h : LoadFrame p s s') {q : ℕ} (hex : (s.loads q).executed = true) :
    (s'.loads q).executed = true := by
  by_cases hq : q = p
  · rw [hq] at hex ⊢
    exact h.executed hex
  · have hcore := congrArg LoadInst.executed (h.others q hq)
    exact hcore.trans hex

/-- **The invariant after a step of load `p`**, if it still holds of that load. -/
theorem inv (h : LoadFrame p s s') (hinv : Inv P prog init caught s) (hp : p < s.loadTail →
      LoadOk P (seen P init s (s.loads p).sqIt) (caught p) (s'.loads p)) :
    Inv P prog init caught s' := by
  have hw : sentWrites P s' = sentWrites P s := by
    funext k a
    rw [sentWrites, sentWrites, h.stores]
  have hst := hinv.stores
  refine ⟨hinv.order.of_same h.program, ?_, ?_⟩
  · have hloads := h.program.loads
    constructor
    all_goals simp only [h.stores, h.storeWBIt, h.isStoreBlocked, h.memory, h.program.storeTail,
      h.program.loadTail, hloads, hw]
    · exact hst.ok
    · exact hst.wb_le
    · exact hst.sent
    · exact hst.waiting
    · exact hst.blocked
    · exact fun k q hk hq hcan hsq => h.executed_all (hst.loads_executed k q hk hq hcan hsq)
    · exact hst.memory_eq
  · constructor
    · intro q hq
      rw [h.program.loadTail] at hq
      rw [h.seen_eq, (h.program.loads q).2.2]
      by_cases hqp : q = p
      · rw [hqp] at hq ⊢
        exact hp hq
      · exact (hinv.loads.ok q hq).of_core (h.others q hqp)
    · rw [h.loadHead, h.program.loadTail]; exact hinv.loads.head_le
    · intro q hq
      rw [h.loadHead] at hq
      exact h.executed_all (hinv.loads.popped q hq)

end LoadFrame

/-! ## Memory and the store queue -/

theorem StoresOk.sentWrites_eq (h : StoresOk P init s) {k : ℕ} (hk : k < s.storeWBIt) (a : ℕ) :
    sentWrites P s k a = executedWrites P s k a := by
  have hlt : k < s.storeTail := lt_of_lt_of_le hk h.wb_le
  have hok := h.ok k hlt
  have hsent := h.sent k hk
  have hex : (s.stores k).executed = true := by
    refine hok.executed_of_committed (hok.sent_of ?_)
    rw [hsent]
    exact List.length_pos_iff.mpr (P.packets_ne_nil _)
  rw [sentWrites, executedWrites, if_pos hex, StoreInst.sentBytes, hsent, P.bytesSent_length,
    StoreOp.writes]

/-- Memory has nothing of a store after a load that has not executed. -/
theorem StoresOk.sentWrites_after (h : StoresOk P init s) {p k : ℕ} (hp : p < s.loadTail)
    (hex : (s.loads p).executed = false) (hsq : (s.loads p).sqIt ≤ k) (hk : k < s.storeTail)
    (a : ℕ) : sentWrites P s k a = none := by
  refine h.sentWrites_eq_none hk (Bool.eq_false_iff.mpr fun hcom => ?_) a
  have hload := h.loads_executed k p hk hp ((h.ok k hk).committed_of hcom).1 hsq
  rw [hex] at hload
  simp at hload

/-- **Where no store of the queue overlaps a load, memory is what the load sees.** -/
theorem Inv.memory_eq_seen (h : Inv P prog init caught s) (hsyn : NoSynonyms P.paddr prog)
    {p b : ℕ} (hp : p < s.loadTail) (hex : (s.loads p).executed = false)
    (hnone : ∀ k, s.storeWBIt ≤ k → k < (s.loads p).sqIt → (s.stores k).executed = true →
      ¬ (s.stores k).op.toAccess.Overlaps (s.loads p).access)
    (hb : (s.loads p).access.Touches b) :
    s.memory (P.paddr b) = seen P init s (s.loads p).sqIt (P.paddr b) := by
  have hsq := h.order.sqIt_le p hp
  rw [h.stores.memory_eq, lastWrite_of_none hsq
    (fun k hk hkt => h.stores.sentWrites_after hp hex hk hkt _)]
  refine lastWrite_congr ?_
  intro k hk
  have hkt : k < s.storeTail := lt_of_lt_of_le hk hsq
  by_cases hwb : k < s.storeWBIt
  · exact h.stores.sentWrites_eq hwb _
  · by_cases hexk : (s.stores k).executed = true
    · -- a store in the queue that does not overlap the load
      have hapart := hnone k (Nat.le_of_not_lt hwb) hk hexk
      rw [sentWrites, executedWrites, if_pos hexk, StoreOp.writes, StoreInst.sentBytes,
        h.order.writes_eq_none hsyn hp hkt hb (P.bytesSent_le _ _) hapart,
        h.order.writes_eq_none hsyn hp hkt hb (le_refl _) hapart]
    · -- a store that has not executed has sent nothing
      have hidle := (h.stores.ok k hkt).idle (Bool.eq_false_of_not_eq_true hexk)
      rw [sentWrites, executedWrites, if_neg hexk, StoreInst.sentBytes, hidle.2, sentPackets,
        Params.bytesSent_zero, StoreOp.writesUpTo]

/-- **What a load sees of the youngest store that overlaps it.** -/
theorem Inv.seen_eq_byte (h : Inv P prog init caught s) (hsyn : NoSynonyms P.paddr prog)
    {p k i : ℕ} (hp : p < s.loadTail) (hk : k < (s.loads p).sqIt)
    (hexk : (s.stores k).executed = true)
    (hnone : ∀ j, k < j → j < (s.loads p).sqIt → (s.stores j).executed = true →
      ¬ (s.stores j).op.toAccess.Overlaps (s.loads p).access)
    (hi : i < (s.stores k).op.size)
    (hb : (s.loads p).access.Touches ((s.stores k).op.addr + i)) :
    seen P init s (s.loads p).sqIt (P.paddr ((s.stores k).op.addr + i))
      = (s.stores k).op.byte i := by
  have hsq := h.order.sqIt_le p hp
  have hkt : k < s.storeTail := lt_of_lt_of_le hk hsq
  refine lastWrite_of_last hk ?_ ?_
  · rw [executedWrites, if_pos hexk]
    exact StoreOp.writes_eq_some hi (fun j hj heq => h.order.inj hsyn hp hkt hb hj heq)
  · intro j hkj hj
    rw [executedWrites]
    by_cases hexj : (s.stores j).executed = true
    · rw [if_pos hexj, StoreOp.writes, h.order.writes_eq_none hsyn hp (lt_of_lt_of_le hj hsq) hb
        (le_refl _) (hnone j hkj hj hexj)]
    · rw [if_neg hexj]

/-! ## The search for an older store -/

/-- What the search through the stores from `storeWBIt` to `u` may answer. -/
def FoundOk (s : LSQUnit) (l : LoadInst) (u : ℕ) : Found → Prop
  | .nothing => ∀ k, s.storeWBIt ≤ k → k < u → (s.stores k).executed = true →
      ¬ (s.stores k).op.toAccess.Overlaps l.access
  | .forward k => k < u ∧ (s.stores k).executed = true ∧ (s.stores k).op.addr ≤ l.access.addr
      ∧ l.access.addr + l.access.size ≤ (s.stores k).op.addr + (s.stores k).op.size
      ∧ ∀ j, k < j → j < u → (s.stores j).executed = true →
        ¬ (s.stores j).op.toAccess.Overlaps l.access
  | .stall _ => True

/-- One more store that does not overlap the load. -/
theorem FoundOk.succ {u : ℕ} {found : Found} (h : FoundOk s l u found)
    (hlast : (s.stores u).executed = true → ¬ (s.stores u).op.toAccess.Overlaps l.access) :
    FoundOk s l (u + 1) found := by
  cases found with
  | nothing =>
    intro k hwb hk hex
    by_cases hku : k = u
    · rw [hku] at hex ⊢
      exact hlast hex
    · exact h k hwb (by omega) hex
  | forward k =>
    obtain ⟨hku, hex, hlo, hhi, hnone⟩ := h
    refine ⟨by omega, hex, hlo, hhi, ?_⟩
    intro j hkj hj hexj
    by_cases hju : j = u
    · rw [hju] at hexj ⊢
      exact hlast hexj
    · exact hnone j hkj (by omega) hexj
  | stall k => exact trivial

/-- **The search of `read`.** -/
theorem StoresOk.findStore (h : StoresOk P init s) (l : LoadInst) (n : ℕ)
    (hn : s.storeWBIt + n ≤ s.storeTail) :
    Ok (FoundOk s l (s.storeWBIt + n)) ⊤ (s.findStore l n) := by
  induction n with
  | zero =>
    unfold LSQUnit.findStore
    intro k hwb hk
    omega
  | succ n ih =>
    have hrec := ih (by omega)
    have hok := h.ok (s.storeWBIt + n) (by omega)
    unfold LSQUnit.findStore
    dsimp only
    refine Ok.assert (fun _ => ?_)
    refine Ok.assert (fun _ => ?_)
    by_cases hsize : (s.stores (s.storeWBIt + n)).size ≠ 0
    · rw [if_pos hsize]
      refine Ok.assert (fun _ => ?_)
      have hex : (s.stores (s.storeWBIt + n)).executed = true := by
        by_contra hne
        exact hsize (hok.idle (Bool.eq_false_of_not_eq_true hne)).1
      rw [(hok.effAddr_of hex).2.1, (hok.entry_of hex).1]
      split
      next hcover =>
        -- the store has all of the load
        simp only [Bool.and_eq_true, decide_eq_true_eq] at hcover
        refine ⟨by omega, hex, hcover.1, hcover.2, ?_⟩
        intro j hj hju
        omega
      next hcover =>
        split
        next hpart =>
          split
          · exact trivial
          · exact trivial
        next hpart =>
          -- no byte in common
          refine hrec.imp (fun found hf => hf.succ ?_)
          intro _ hover
          apply hpart
          simp only [Bool.or_eq_true, Bool.and_eq_true, decide_eq_true_eq]
          exact .inr ⟨hover.2, hover.1⟩
    · rw [if_neg hsize]
      refine hrec.imp (fun found hf => hf.succ ?_)
      intro hex
      have hsz := (hok.entry_of hex).1
      have hpos := (s.stores (s.storeWBIt + n)).op.size_pos
      omega

/-! ## Executing a load -/

theorem LoadOk.setRequest (h : LoadOk P sn c l) (hvalid : l.effAddrValid = true)
    {r : Option Request} (hle : sentPackets r ≤ sentPackets l.request) :
    LoadOk P sn c { l with request := r } := by
  refine { h with
    idle := fun hv => nomatch hvalid.symm.trans hv
    sent_le := hle.trans h.sent_le
    got := fun hc i hi => h.got hc i (lt_of_lt_of_le hi ?_) }
  unfold LoadInst.gotBytes
  dsimp only
  split
  · exact le_rfl
  · exact P.bytesSent_mono _ hle

/-- The load after `pushRequest`: it keeps what it has got. -/
theorem LoadOk.loadRequested (h : LoadOk P sn c l) :
    LoadOk P sn c (LSQUnit.loadRequested l) := by
  have hsent : sentPackets (LSQUnit.loadRequested l).request = sentPackets l.request := by
    unfold LSQUnit.loadRequested
    cases l.request <;> rfl
  refine ⟨fun _ => ⟨rfl, rfl⟩, nofun, fun _ => rfl, h.executed_of, hsent.trans_le h.sent_le,
    fun hc i hi => h.got hc i ?_, h.result_eq⟩
  unfold LoadInst.gotBytes at hi ⊢
  rw [hsent] at hi
  exact hi

/-- A load whose data come from a store, at the bytes it sees. -/
theorem LoadOk.forward (h : LoadOk P sn c l)
    (hvalid : l.effAddrValid = true) (hissued : l.issued = true) {data : ℕ → Byte}
    (hdata : ∀ i < l.access.size, data i = sn (P.paddr (l.access.addr + i))) :
    LoadOk P sn c { l with
      memData := data
      request := l.request.map discardSenderState
      writebackScheduled := true } := by
  have hsent : sentPackets (l.request.map discardSenderState) = sentPackets l.request := by
    cases l.request with
    | none => rfl
    | some r =>
      rw [Option.map_some, discardSenderState]
      split <;> rfl
  exact { h with
    idle := fun hv => nomatch hvalid.symm.trans hv
    issued_of := fun _ => hissued
    sent_le := hsent.trans_le h.sent_le
    got := fun _ => hdata }

theorem LoadOk.reschedule (h : LoadOk P sn c l)
    (hwb : l.writebackScheduled = false) (hex : l.executed = false) :
    LoadOk P sn c (rescheduleLoad l) := by
  refine ⟨nofun, fun _ => ⟨rfl, hwb, hex⟩, fun hw => (nomatch hwb.symm.trans hw), h.executed_of,
    Nat.zero_le _, fun _ i hi => ?_, h.result_eq⟩
  have hzero : (rescheduleLoad l).gotBytes P = 0 := by
    unfold LoadInst.gotBytes rescheduleLoad
    rw [hwb]
    rfl
  omega

/-- A packet was served: the next bytes of the load. -/
theorem LoadOk.served {r : Request} {pkt : Packet}
    {rest : List Packet} (h : LoadOk P sn c l) (hvalid : l.effAddrValid = true)
    (hwb : l.writebackScheduled = false) (hreq : l.request = some r)
    (hdrop : (P.packets l.access).drop (sentPackets (some r)) = pkt :: rest)
    (hmem : ∀ i, i < l.access.size →
      s.memory (P.paddr (l.access.addr + i)) = sn (P.paddr (l.access.addr + i))) :
    LoadOk P sn c (s.servedLoad l pkt) := by
  obtain ⟨hoff, haddr, hsize⟩ := P.next_packet hdrop
  have hsent : sentPackets (s.servedLoad l pkt).request = sentPackets (some r) + 1 := by
    unfold servedLoad
    rw [hreq, sentPackets_packetSent]
  refine ⟨h.effAddr_of, fun hv => absurd (hvalid.symm.trans hv) (by decide), h.issued_of,
    h.executed_of, ?_, ?_, h.result_eq⟩
  · rw [hsent]
    exact P.lt_length_of_drop hdrop
  · intro hc i hi
    have hgot : (s.servedLoad l pkt).gotBytes P
        = P.bytesSent l.access (sentPackets (some r)) + pkt.size := by
      rw [← P.bytesSent_succ hdrop, LoadInst.gotBytes, hsent]
      unfold servedLoad
      rw [hwb]
      rfl
    rw [hgot] at hi
    unfold servedLoad
    dsimp only
    by_cases hin : pkt.offset ≤ i ∧ i < pkt.offset + pkt.size
    · rw [if_pos hin, haddr (i - pkt.offset) (by omega),
        show l.access.addr + P.bytesSent l.access (sentPackets (some r)) + (i - pkt.offset)
          = l.access.addr + i by omega]
      exact hmem i (by omega)
    · rw [if_neg hin]
      refine h.got hc i ?_
      rw [LoadInst.gotBytes, hwb, hreq]
      exact (by omega : i < P.bytesSent l.access (sentPackets (some r)))

/-- What the packets of a load leave behind. -/
structure SentLoad (P : Params) (sn : ℕ → Byte) (c : Prop) (p : ℕ) (s s' : LSQUnit) : Prop where
  frame : LoadFrame p s s'
  ok : LoadOk P sn c (s'.loads p)
  effAddrValid : (s'.loads p).effAddrValid = true
  writebackScheduled : (s'.loads p).writebackScheduled = false
  executed : (s'.loads p).executed = (s.loads p).executed

/-- **The packets of a load, one after the other.** -/
theorem LoadOk.sendLoadPackets {p : ℕ} {r : Request}
    (pkts : List Packet) (h : LoadOk P sn c (s.loads p))
    (hvalid : (s.loads p).effAddrValid = true) (hwb : (s.loads p).writebackScheduled = false)
    (hreq : (s.loads p).request = some r)
    (hdrop : (P.packets (s.loads p).access).drop (sentPackets (some r)) = pkts)
    (hmem : ∀ i, i < (s.loads p).access.size → s.memory (P.paddr ((s.loads p).access.addr + i))
        = sn (P.paddr ((s.loads p).access.addr + i))) :
    SentLoad P sn c p s (sendLoadPackets p pkts s) := by
  induction pkts generalizing s r with
  | nil => exact ⟨.refl p s, h, hvalid, hwb, rfl⟩
  | cons pkt rest ih =>
    unfold sendLoadPackets
    by_cases hans : s.answer = true
    · rw [if_pos hans]
      have hself := s.answered.setLoad_self p (s.servedLoad (s.loads p) pkt)
      have hans : LoadFrame p s s.answered := .of_view rfl
      have hframe : LoadFrame p s (s.answered.setLoad p (s.servedLoad (s.loads p) pkt)) :=
        hans.trans (.setLoad ⟨rfl, rfl, rfl⟩ id)
      have hrec := ih (s := s.answered.setLoad p (s.servedLoad (s.loads p) pkt))
        (by rw [hself]; exact h.served hvalid hwb hreq hdrop hmem)
        (by rw [hself]; exact hvalid) (by rw [hself]; exact hwb)
        (by rw [hself]; exact congrArg (Option.map packetSent) hreq)
        (by rw [hself]; exact P.drop_succ hdrop) (by rw [hself]; exact hmem)
      refine ⟨hframe.trans hrec.frame, hrec.ok, hrec.effAddrValid, hrec.writebackScheduled, ?_⟩
      rw [hrec.executed, hself]
      rfl
    · rw [if_neg hans]
      have hself := s.answered.setLoad_self p { s.loads p with
        request := (s.loads p).request.map packetNotSent }
      have hans : LoadFrame p s s.answered := .of_view rfl
      refine ⟨hans.trans (.setLoad ⟨rfl, rfl, rfl⟩ id), ?_, by rw [hself]; exact hvalid,
        by rw [hself]; exact hwb, by rw [hself]⟩
      rw [hself]
      exact h.setRequest hvalid (sentPackets_packetNotSent _).le

/-- What a step of load `p` keeps. -/
structure LoadStep (P : Params) (init : ℕ → Byte) (caught : ℕ → Prop) (p : ℕ)
    (s s' : LSQUnit) : Prop where
  frame : LoadFrame p s s'
  ok : LoadOk P (seen P init s (s.loads p).sqIt) (caught p) (s'.loads p)

theorem LoadStep.setLoad {p : ℕ} (hsame : l.seqNum = (s.loads p).seqNum
    ∧ l.access = (s.loads p).access ∧ l.sqIt = (s.loads p).sqIt)
    (hex : (s.loads p).executed = true → l.executed = true)
    (hok : LoadOk P (seen P init s (s.loads p).sqIt) (caught p) l) :
    LoadStep P init caught p s (s.setLoad p l) :=
  ⟨.setLoad hsame hex, by rw [s.setLoad_self]; exact hok⟩

theorem LoadStep.inv {p : ℕ} (h : LoadStep P init caught p s s')
    (hinv : Inv P prog init caught s) : Inv P prog init caught s' :=
  h.frame.inv hinv (fun _ => h.ok)

theorem Inv.accessMemory (h : Inv P prog init caught s) (hsyn : NoSynonyms P.paddr prog) {p : ℕ}
    (hp : p < s.loadTail) (hex : (s.loads p).executed = false)
    (hvalid : (s.loads p).effAddrValid = true) (hwb : (s.loads p).writebackScheduled = false)
    (hnone : FoundOk s (s.loads p) (s.loads p).sqIt .nothing) :
    Ok (LoadStep P init caught p s) ⊤ (s.accessMemory P p) := by
  unfold LSQUnit.accessMemory
  dsimp only
  cases hreq : (s.loads p).request with
  | none => exact trivial
  | some r =>
    refine Ok.assert (fun _ => ?_)
    have hsent := (h.loads.ok p hp).sendLoadPackets (unsent P (s.loads p).access r)
      hvalid hwb hreq rfl (fun i hi => h.memory_eq_seen hsyn hp hex hnone
        ⟨Nat.le_add_right _ _, Nat.add_lt_add_left hi _⟩)
    generalize sendLoadPackets p (unsent P (s.loads p).access r) s = t at hsent ⊢
    -- a load with packets left is only marked as not issued
    have hblock : LoadOk P (seen P init s (s.loads p).sqIt) (caught p)
        (blockLoad (t.loads p)) ∧ LoadFrame p t (t.setLoad p (blockLoad (t.loads p))) := by
      unfold blockLoad
      have hok := hsent.ok
      split
      · exact ⟨{ hok with issued_of := fun hw => nomatch hsent.writebackScheduled.symm.trans hw },
          .setLoad ⟨rfl, rfl, rfl⟩ id⟩
      · exact ⟨hok, .setLoad ⟨rfl, rfl, rfl⟩ id⟩
    refine ⟨hsent.frame.trans hblock.2, ?_⟩
    rw [t.setLoad_self]
    exact hblock.1

theorem Inv.forward (h : Inv P prog init caught s) (hsyn : NoSynonyms P.paddr prog) {p k : ℕ}
    (hp : p < s.loadTail) (hvalid : (s.loads p).effAddrValid = true)
    (hissued : (s.loads p).issued = true)
    (hfound : FoundOk s (s.loads p) (s.loads p).sqIt (.forward k)) :
    LoadStep P init caught p s (s.forward p k) := by
  obtain ⟨hk, hex, hlo, hhi, hnone⟩ := hfound
  have hok := h.stores.ok k (lt_of_lt_of_le hk (h.order.sqIt_le p hp))
  refine .setLoad ⟨rfl, rfl, rfl⟩ id ((h.loads.ok p hp).forward hvalid hissued ?_)
  intro i hi
  -- byte `i` of the load is byte `shift_amt + i` of the store
  have hbyte : (s.stores k).op.addr + ((s.loads p).access.addr - (s.stores k).op.addr + i)
      = (s.loads p).access.addr + i := by omega
  have hseen := h.seen_eq_byte hsyn hp hk hex hnone
    (i := (s.loads p).access.addr - (s.stores k).op.addr + i) (by omega)
    (by rw [hbyte]; exact ⟨Nat.le_add_right _ _, Nat.add_lt_add_left hi _⟩)
  rw [hbyte] at hseen
  rw [hseen, ← (hok.entry_of hex).2 _ (by omega), (hok.effAddr_of hex).2.1]
  rfl

theorem Inv.stallLoad (h : Inv P prog init caught s) {p : ℕ} (k : ℕ) (hp : p < s.loadTail)
    (hex : (s.loads p).executed = false) (hwb : (s.loads p).writebackScheduled = false) :
    LoadStep P init caught p s (s.stallLoad p k) := by
  have hset : LoadStep P init caught p s (s.setLoad p (rescheduleLoad (s.loads p))) :=
    .setLoad ⟨rfl, rfl, rfl⟩ id ((h.loads.ok p hp).reschedule hwb hex)
  unfold LSQUnit.stallLoad
  dsimp only
  split
  · exact ⟨hset.frame.trans (.of_view rfl), hset.ok⟩
  · exact hset

/-- **`read` of a load that has its address.** -/
theorem Inv.read (h : Inv P prog init caught s) (hsyn : NoSynonyms P.paddr prog) {p : ℕ}
    (hp : p < s.loadTail) (hvalid : (s.loads p).effAddrValid = true)
    (hissued : (s.loads p).issued = true) (hwb : (s.loads p).writebackScheduled = false) :
    Ok (LoadStep P init caught p s) ⊤ (s.read P p) := by
  unfold LSQUnit.read
  refine Ok.assert (fun hnot => ?_)
  refine Ok.assert (fun hle => ?_)
  have hex : (s.loads p).executed = false := by
    rw [Bool.not_eq_true'] at hnot
    exact hnot
  have hle' : s.storeWBIt ≤ (s.loads p).sqIt := of_decide_eq_true hle
  have hsq := h.order.sqIt_le p hp
  have hfind := h.stores.findStore (s.loads p) ((s.loads p).sqIt - s.storeWBIt) (by omega)
  rw [show s.storeWBIt + ((s.loads p).sqIt - s.storeWBIt) = (s.loads p).sqIt by omega] at hfind
  refine hfind.bind ?_
  intro found hfound
  cases found with
  | forward k => exact h.forward hsyn hp hvalid hissued hfound
  | stall k => exact h.stallLoad k hp hex hwb
  | nothing => exact h.accessMemory hsyn hp hex hvalid hwb hfound

/-! ## Violations -/

/-- The scan changes only the violator and flags that nothing here reads. -/
theorem checkViolations_frame (p : ℕ) (isLoad : Bool) (effAddr effSize n loadIt : ℕ) (s : LSQUnit) :
    LoadFrame p s (checkViolations P isLoad effAddr effSize n loadIt s)
      ∧ ((checkViolations P isLoad effAddr effSize n loadIt s).loads p).core
        = (s.loads p).core := by
  induction n generalizing loadIt s with
  | zero => exact ⟨.refl p s, rfl⟩
  | succ n ih =>
    have hviol : ∀ v : Option ℕ, LoadFrame p s { s with memDepViolator := v } := fun v =>
      .of_view rfl
    unfold checkViolations
    dsimp only
    split
    · exact ih _ _
    · split
      · split
        · split
          · exact ⟨hviol _, rfl⟩
          · -- the flag of the load that was looked at
            let s1 := s.setLoad loadIt { s.loads loadIt with possibleLoadViolation := true }
            have hcore1 : ∀ q, (s1.loads q).core = (s.loads q).core := by
              intro q
              by_cases hq : q = loadIt
              · rw [hq, s.setLoad_self]
                rfl
              · rw [s.setLoad_of_ne hq]
            have hset : LoadFrame p s s1 := ⟨.setLoad ⟨rfl, rfl, rfl⟩, rfl, rfl, rfl, rfl, rfl,
              fun q _ => hcore1 q, fun hx => (congrArg LoadInst.executed (hcore1 p)).trans hx⟩
            obtain ⟨hframe, hcore⟩ := ih (loadIt + 1) s1
            exact ⟨hset.trans hframe, hcore.trans (hcore1 p)⟩
        · split
          · exact ⟨.refl p s, rfl⟩
          · exact ⟨hviol _, rfl⟩
      · exact ih _ _

/-- **`executeLoad` keeps the invariant.** -/
theorem Inv.executeLoad (h : Inv P prog init caught s) (hsyn : NoSynonyms P.paddr prog) {p : ℕ}
    (hp : p < s.loadTail) (hissued : (s.loads p).issued = false) :
    Ok (fun s' => Inv P prog init caught s' ∧ LoadFrame p s s') ⊤ (s.executeLoad P p) := by
  have hok := h.loads.ok p hp
  have hwb : (s.loads p).writebackScheduled = false := by
    rw [← Bool.not_eq_true]
    intro hw
    exact absurd (hissued.symm.trans (hok.issued_of hw)) (by decide)
  have hself := s.setLoad_self p (loadRequested (s.loads p))
  have hreq : LoadFrame p s (s.setLoad p (loadRequested (s.loads p))) :=
    .setLoad ⟨rfl, rfl, rfl⟩ id
  have hinv := hreq.inv h (fun _ => by rw [hself]; exact hok.loadRequested)
  have hread := hinv.read hsyn hp (by rw [hself]; rfl) (by rw [hself]; rfl)
    (by rw [hself]; exact hwb)
  unfold LSQUnit.executeLoad
  refine hread.bind ?_
  intro t ht
  have htinv := ht.inv hinv
  have hframe := hreq.trans ht.frame
  dsimp only
  split
  · rw [Ok.pure_iff]
    obtain ⟨hcheck, hcore⟩ := checkViolations_frame p true (t.loads p).effAddr
      (t.loads p).effSize (t.loadTail - (p + 1)) (p + 1) t
    exact ⟨hcheck.inv htinv (fun hpt => (htinv.loads.ok p hpt).of_core hcore), hframe.trans hcheck⟩
  · exact ⟨htinv, hframe⟩

/-! ## Responses -/

theorem LoadInst.gotBytes_le (l : LoadInst) : l.gotBytes P ≤ l.access.size := by
  unfold LoadInst.gotBytes
  split
  · exact le_refl _
  · exact P.bytesSent_le _ _

theorem LoadStep.writeback {p : ℕ} (hsame : l.seqNum = (s.loads p).seqNum
    ∧ l.access = (s.loads p).access ∧ l.sqIt = (s.loads p).sqIt)
    (hex : (s.loads p).executed = true → l.executed = true)
    (hok : LoadOk P (seen P init s (s.loads p).sqIt) (caught p) l)
    (hvalid : l.effAddrValid = true) (hall : l.gotBytes P = l.access.size) :
    LoadStep P init caught p s (s.setLoad p (LSQUnit.writeback l)) := by
  unfold LSQUnit.writeback
  split
  · exact .setLoad hsame hex hok
  · refine .setLoad hsame (fun _ => rfl) { hok with
      idle := fun hv => nomatch hvalid.symm.trans hv
      executed_of := fun _ => rfl
      result_eq := fun hc v hv i hi => ?_ }
    have hdata : l.memData = v := Option.some.inj hv
    rw [← hdata]
    exact hok.got hc i (lt_of_lt_of_eq hi hall.symm)

theorem Inv.processWriteback (h : Inv P prog init caught s) {p : ℕ} (hp : p < s.loadTail)
    (hwb : (s.loads p).writebackScheduled = true) :
    LoadStep P init caught p s (s.processWriteback p) := by
  have hok := h.loads.ok p hp
  refine .writeback ⟨rfl, rfl, rfl⟩ id hok ?_ (by rw [LoadInst.gotBytes, if_pos hwb])
  by_contra hv
  have hidle := (hok.idle (Bool.eq_false_of_not_eq_true hv)).2.1
  exact absurd (hidle.symm.trans hwb) (by decide)

/-- **The response to a packet of a load.** -/
theorem Inv.recvLoadResp (h : Inv P prog init caught s) {p : ℕ} (hp : p < s.loadTail)
    (hout : ∀ r, (s.loads p).request = some r → 0 < r.numOutstandingPackets) :
    Ok (LoadStep P init caught p s) ⊤ (s.recvLoadResp P p) := by
  have hok := h.loads.ok p hp
  unfold LSQUnit.recvLoadResp
  dsimp only
  cases hreq : (s.loads p).request with
  | none => exact trivial
  | some r =>
    dsimp only
    have hpos := hout r hreq
    have hvalid : (s.loads p).effAddrValid = true := by
      by_contra hv
      have hidle := (hok.idle (Bool.eq_false_of_not_eq_true hv)).1
      rw [hreq] at hidle
      cases hidle
    by_cases halive : r.alive = true
    · rw [if_pos halive]
      refine Ok.assert (fun _ => ?_)
      -- a packet that was sent is now one that was answered
      have hsum : sentPackets (some { r with
          numReceivedPackets := r.numReceivedPackets + 1
          numOutstandingPackets := r.numOutstandingPackets - 1 }) = sentPackets (some r) := by
        rw [sentPackets, sentPackets]
        dsimp only
        omega
      have hok' := hok.setRequest hvalid (hsum.trans (by rw [hreq])).le
      split
      next hlast =>
        refine .writeback ⟨rfl, rfl, rfl⟩ id hok' hvalid ?_
        -- all packets were answered, so all were sent
        have hle := hok'.sent_le
        have hcount : sentPackets (some { r with
            numReceivedPackets := r.numReceivedPackets + 1
            numOutstandingPackets := r.numOutstandingPackets - 1 })
            = (P.packets (s.loads p).access).length := by
          rw [sentPackets] at hle ⊢
          dsimp only at hle hlast ⊢
          omega
        rw [LoadInst.gotBytes]
        dsimp only
        split
        · rfl
        · rw [hcount, P.bytesSent_length]
      next =>
        rw [Ok.pure_iff]
        exact .setLoad ⟨rfl, rfl, rfl⟩ id hok'
    · -- the data came from a store in the meantime
      rw [if_neg halive, Ok.pure_iff]
      refine .setLoad ⟨rfl, rfl, rfl⟩ id (hok.setRequest hvalid ?_)
      rw [hreq, sentPackets, sentPackets]
      dsimp only
      omega

end Lsq

end Bindu.O3
