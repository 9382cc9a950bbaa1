/-
The stores: writing back, responses and commit.

Of these steps only the sending of a packet changes memory. It adds the bytes of the packet to
what has reached memory of the store at `storeWBIt`, and no younger store has anything there
yet. All other steps change flags and counts of a store and keep what was sent. None of them
changes the loads or which stores have executed, so none of them changes what a load sees.
-/
import Bindu.O3.LsqInvariant

open Bindu.Lib

namespace Bindu.O3

namespace Lsq

variable {P : Params} {prog : ℕ → MemInst} {init : ℕ → Byte} {caught : ℕ → Prop}
variable {s s' s'' : LSQUnit}

/-! ## Steps of the stores -/

/-- A step that leaves the loads, and which stores have executed, as they are. -/
structure StoreFrame (s s' : LSQUnit) : Prop where
  program : SameProgram s s'
  loads : s'.loads = s.loads
  loadHead : s'.loadHead = s.loadHead
  executed : ∀ k, (s'.stores k).executed = (s.stores k).executed

variable {k : ℕ} {st : StoreInst}

namespace StoreFrame

theorem of_view (hv : s'.view = s.view) : StoreFrame s s' := by
  have h : StoreFrame s s'.view := by
    rw [hv]
    exact ⟨.of_view rfl, rfl, rfl, fun _ => rfl⟩
  exact { h with program := .of_view hv }

theorem refl (s : LSQUnit) : StoreFrame s s := .of_view rfl

theorem trans (h : StoreFrame s s') (h' : StoreFrame s' s'') : StoreFrame s s'' where
  program := h.program.trans h'.program
  loads := h'.loads.trans h.loads
  loadHead := h'.loadHead.trans h.loadHead
  executed k := (h'.executed k).trans (h.executed k)

theorem setStore (h : st.seqNum = (s.stores k).seqNum
    ∧ st.op = (s.stores k).op ∧ st.lqIt = (s.stores k).lqIt)
    (hex : st.executed = (s.stores k).executed) : StoreFrame s (s.setStore k st) where
  program := .setStore h
  loads := rfl
  loadHead := rfl
  executed j := by
    rw [LSQUnit.setStore_apply]
    split_ifs with hj
    · rw [hex, hj]
    · rfl

/-- What a load sees does not change. -/
theorem seen_eq (h : StoreFrame s s') (n a : ℕ) : seen P init s' n a = seen P init s n a := by
  refine lastWrite_congr ?_
  intro k _
  rw [executedWrites, executedWrites, h.executed k, (h.program.stores k).2.1]

theorem loadsOk (h : StoreFrame s s') (hl : LoadsOk P init caught s) :
    LoadsOk P init caught s' := by
  have hseen : ∀ n, seen P init s' n = seen P init s n := fun n => funext (h.seen_eq n)
  constructor
  · intro p hp
    rw [h.program.loadTail] at hp
    rw [h.loads, hseen]
    exact hl.ok p hp
  · rw [h.loadHead, h.program.loadTail]
    exact hl.head_le
  · intro p hp
    rw [h.loadHead] at hp
    rw [h.loads]
    exact hl.popped p hp

end StoreFrame

/-- What a step of the stores keeps. -/
structure StoreStep (P : Params) (init : ℕ → Byte) (s s' : LSQUnit) : Prop where
  ok : StoresOk P init s'
  frame : StoreFrame s s'

theorem StoreStep.trans (h : StoreStep P init s s') (h' : StoreStep P init s' s'') :
    StoreStep P init s s'' :=
  ⟨h'.ok, h.frame.trans h'.frame⟩

theorem StoresOk.of_view (h : StoresOk P init s) (hv : s'.view = s.view) :
    StoreStep P init s s' := by
  have h' : StoresOk P init s'.view := by
    rw [hv]
    exact { h with }
  exact ⟨{ h' with }, .of_view hv⟩

/-! ## Changing one store -/

theorem StoresOk.setStore (h : StoresOk P init s) (hok : StoreOk P st)
    (hop : st.op = (s.stores k).op)
    (hsent : sentPackets st.request = sentPackets (s.stores k).request)
    (hcommitted : (s.stores k).committed = true → st.committed = true)
    (hwait : s.storeWBIt < k → st.committed = false)
    (hcan : st.canWB = true → ∀ p < s.loadTail, (s.loads p).sqIt ≤ k →
      (s.loads p).executed = true) : StoresOk P init (s.setStore k st) := by
  have hw : sentWrites P (s.setStore k st) = sentWrites P s := by
    funext j a
    rw [sentWrites, sentWrites, LSQUnit.setStore_apply]
    split_ifs with hj
    · rw [hj, StoreInst.sentBytes, StoreInst.sentBytes, hop, hsent]
    · rfl
  refine ⟨fun j hj => ?_, h.wb_le, fun j hj => ?_, fun j hwb hj => ?_, fun hblocked => ?_,
    fun j p hj hp hcanj hsq => ?_, by rw [hw]; exact h.memory_eq⟩
  · rw [LSQUnit.setStore_apply]
    split_ifs
    · exact hok
    · exact h.ok j hj
  · rw [LSQUnit.setStore_apply]
    split_ifs with hjk
    · rw [hop, hsent, ← hjk]
      exact h.sent j hj
    · exact h.sent j hj
  · rw [LSQUnit.setStore_apply]
    split_ifs with hjk
    · exact hwait (hjk ▸ hwb)
    · exact h.waiting j hwb hj
  · obtain ⟨hlt, hcom, hleft⟩ := h.blocked hblocked
    refine ⟨hlt, ?_⟩
    rw [LSQUnit.setStore_apply]
    split_ifs with hwb
    · rw [hop, hsent, ← hwb]
      exact ⟨hcommitted (hwb ▸ hcom), hleft⟩
    · exact ⟨hcom, hleft⟩
  · rw [LSQUnit.setStore_apply] at hcanj
    split_ifs at hcanj with hjk
    · exact hcan hcanj p hp (hjk ▸ hsq)
    · exact h.loads_executed j p hj hp hcanj hsq

theorem StoreOk.sentPackets_eq_zero (h : StoreOk P st)
    (hcom : st.committed = false) : sentPackets st.request = 0 := by
  by_contra hne
  have := h.sent_of (Nat.pos_of_ne_zero hne)
  rw [hcom] at this
  simp at this

theorem StoreOk.executed_of_committed (h : StoreOk P st)
    (hcom : st.committed = true) : st.executed = true :=
  h.canWB_of (h.committed_of hcom).1

theorem StoreOk.setRequest (h : StoreOk P st) (hcom : st.committed = true) {r : Option Request}
    (hle : sentPackets r ≤ (P.packets st.op.toAccess).length) :
    StoreOk P { st with request := r } :=
  { h with
    idle := fun hex => absurd (h.executed_of_committed hcom) (by rw [hex]; decide)
    sent_le := hle
    sent_of := fun _ => hcom }

theorem StoresOk.setRequest (h : StoresOk P init s) (hk : k < s.storeTail)
    (hcom : (s.stores k).committed = true) {r : Option Request}
    (hsent : sentPackets r = sentPackets (s.stores k).request) :
    StoreStep P init s (s.setStore k { s.stores k with request := r }) := by
  have hok := (h.ok k hk).setRequest hcom (hsent.trans_le (h.ok k hk).sent_le)
  refine ⟨h.setStore hok rfl hsent id (fun hwb => h.waiting k hwb hk) ?_,
    .setStore ⟨rfl, rfl, rfl⟩ rfl⟩
  exact fun hcan p hp hsq => h.loads_executed k p hk hp hcan hsq

/-! ## Sending the packets of a store -/

@[simp] theorem sentPackets_packetSent (r : Request) :
    sentPackets ((some r).map LSQUnit.packetSent) = sentPackets (some r) + 1 := rfl

@[simp] theorem sentPackets_packetNotSent (r : Option Request) :
    sentPackets (r.map LSQUnit.packetNotSent) = sentPackets r := by
  cases r <;> rfl

theorem StoresOk.sentWrites_eq_none (h : StoresOk P init s) (hk : k < s.storeTail)
    (hcom : (s.stores k).committed = false) (a : ℕ) : sentWrites P s k a = none := by
  rw [sentWrites, StoreInst.sentBytes, (h.ok k hk).sentPackets_eq_zero hcom, Params.bytesSent_zero,
    StoreOp.writesUpTo]

/-- The state after a packet of the store at `storeWBIt` was sent. -/
def LSQUnit.afterPacket (s : LSQUnit) (pkt : Packet) : LSQUnit :=
  let st := s.stores s.storeWBIt
  { s.answered.setStore s.storeWBIt { st with request := st.request.map packetSent } with
    memory := s.servedStore st.memData pkt
    isStoreBlocked := false }

section AfterPacket

variable {pkt : Packet} {rest : List Packet} {r : Request}

theorem LSQUnit.afterPacket_self (s : LSQUnit) (pkt : Packet) :
    (s.afterPacket pkt).stores s.storeWBIt
    = { s.stores s.storeWBIt with
        request := (s.stores s.storeWBIt).request.map LSQUnit.packetSent } :=
  LSQUnit.setStore_self ..

theorem LSQUnit.afterPacket_of_ne (s : LSQUnit) (pkt : Packet)
    (hk : k ≠ s.storeWBIt) : (s.afterPacket pkt).stores k = s.stores k :=
  LSQUnit.setStore_of_ne s.answered hk _

theorem LSQUnit.afterPacket_storeWBIt (s : LSQUnit) (pkt : Packet) :
    (s.afterPacket pkt).storeWBIt = s.storeWBIt := rfl

theorem LSQUnit.afterPacket_isStoreBlocked (s : LSQUnit) (pkt : Packet) :
    (s.afterPacket pkt).isStoreBlocked = false := rfl

theorem StoreFrame.afterPacket (s : LSQUnit) (pkt : Packet) : StoreFrame s (s.afterPacket pkt) := by
  have hset : StoreFrame s (s.setStore s.storeWBIt { s.stores s.storeWBIt with
      request := (s.stores s.storeWBIt).request.map LSQUnit.packetSent }) :=
    .setStore ⟨rfl, rfl, rfl⟩ rfl
  exact { hset with program := { hset.program with } }

/-- The bytes of the packet are added to what memory has of the store. -/
theorem StoresOk.sentWrites_afterPacket (hreq : (s.stores s.storeWBIt).request = some r)
    (hdrop : (P.packets (s.stores s.storeWBIt).op.toAccess).drop (sentPackets (some r))
      = pkt :: rest) (a : ℕ) :
    sentWrites P (s.afterPacket pkt) s.storeWBIt a
      = if pkt.paddr ≤ a ∧ a < pkt.paddr + pkt.size then
          some ((s.stores s.storeWBIt).op.byte (pkt.offset + (a - pkt.paddr)))
        else sentWrites P s s.storeWBIt a := by
  obtain ⟨hoff, haddr, -⟩ := P.next_packet hdrop
  have hbytes : ((s.afterPacket pkt).stores s.storeWBIt).sentBytes P
      = (s.stores s.storeWBIt).sentBytes P + pkt.size := by
    rw [LSQUnit.afterPacket_self, StoreInst.sentBytes, StoreInst.sentBytes, hreq,
      sentPackets_packetSent]
    exact P.bytesSent_succ hdrop
  have hsent : (s.stores s.storeWBIt).sentBytes P = pkt.offset := by
    rw [StoreInst.sentBytes, hreq, hoff]
  rw [sentWrites, hbytes, LSQUnit.afterPacket_self, sentWrites, hsent]
  refine StoreOp.writesUpTo_add ?_ a
  intro i hi
  rw [haddr i hi, hoff]

/-- **Sending a packet keeps the invariant of the stores.** -/
theorem StoresOk.afterPacket (h : StoresOk P init s) (hlt : s.storeWBIt < s.storeTail)
    (hcom : (s.stores s.storeWBIt).committed = true)
    (hreq : (s.stores s.storeWBIt).request = some r)
    (hdrop : (P.packets (s.stores s.storeWBIt).op.toAccess).drop (sentPackets (some r))
      = pkt :: rest) : StoresOk P init (s.afterPacket pkt) := by
  have hok := h.ok _ hlt
  have hleft := P.lt_length_of_drop hdrop
  obtain ⟨hoff, haddr, hsize⟩ := P.next_packet hdrop
  constructor
  · intro k hk
    by_cases hwb : k = s.storeWBIt
    · rw [hwb, LSQUnit.afterPacket_self]
      refine hok.setRequest hcom ?_
      rw [hreq, sentPackets_packetSent]
      exact hleft
    · rw [s.afterPacket_of_ne pkt hwb]
      exact h.ok k hk
  · exact h.wb_le
  · intro k hk
    rw [s.afterPacket_of_ne pkt (Nat.ne_of_lt hk)]
    exact h.sent k hk
  · intro k hwb hk
    rw [s.afterPacket_of_ne pkt (Nat.ne_of_gt hwb)]
    exact h.waiting k hwb hk
  · intro hblocked
    rw [LSQUnit.afterPacket_isStoreBlocked] at hblocked
    simp at hblocked
  · intro k p hk hp hcan hsq
    by_cases hwb : k = s.storeWBIt
    · rw [hwb, LSQUnit.afterPacket_self] at hcan
      exact h.loads_executed k p hk hp (by rw [hwb]; exact hcan) hsq
    · rw [s.afterPacket_of_ne pkt hwb] at hcan
      exact h.loads_executed k p hk hp hcan hsq
  · intro a
    have hlater : ∀ k, s.storeWBIt < k → k < s.storeTail → sentWrites P s k a = none :=
      fun k hwb hk => h.sentWrites_eq_none hk (h.waiting k hwb hk) a
    have hsame : ∀ k ≠ s.storeWBIt, sentWrites P (s.afterPacket pkt) k a = sentWrites P s k a := by
      intro k hk
      rw [sentWrites, sentWrites, s.afterPacket_of_ne pkt hk]
    -- before and after, the store at `storeWBIt` is the last one that memory has anything of
    have hold : s.memory a = (sentWrites P s s.storeWBIt a).getD
        (lastWrite (sentWrites P s) init s.storeWBIt a) := by
      rw [h.memory_eq a]
      exact lastWrite_update hlt (fun _ _ => rfl) hlater
    have hnew : lastWrite (sentWrites P (s.afterPacket pkt)) init s.storeTail a
        = (sentWrites P (s.afterPacket pkt) s.storeWBIt a).getD
          (lastWrite (sentWrites P s) init s.storeWBIt a) :=
      lastWrite_update hlt hsame hlater
    have hmem : (s.afterPacket pkt).memory a
        = s.servedStore (s.stores s.storeWBIt).memData pkt a := rfl
    rw [hmem]
    refine Eq.trans ?_ hnew.symm
    rw [StoresOk.sentWrites_afterPacket hreq hdrop a, LSQUnit.servedStore]
    by_cases hin : pkt.paddr ≤ a ∧ a < pkt.paddr + pkt.size
    · rw [if_pos hin, if_pos hin, Option.getD_some]
      exact (hok.committed_of hcom).2 _ (by omega)
    · rw [if_neg hin, if_neg hin, hold]

end AfterPacket

/-- The state after a packet of the store at `storeWBIt` could not be sent. -/
theorem StoresOk.packetNotSent (h : StoresOk P init s) (hlt : s.storeWBIt < s.storeTail)
    (hcom : (s.stores s.storeWBIt).committed = true)
    (hleft : sentPackets (s.stores s.storeWBIt).request
      < (P.packets (s.stores s.storeWBIt).op.toAccess).length) :
    StoreStep P init s
      { s.answered.setStore s.storeWBIt { s.stores s.storeWBIt with
          request := (s.stores s.storeWBIt).request.map LSQUnit.packetNotSent } with
        isStoreBlocked := true } := by
  have hset := h.setRequest hlt hcom (sentPackets_packetNotSent (s.stores s.storeWBIt).request)
  refine ⟨{ hset.ok with blocked := fun _ => ⟨hlt, ?_⟩ },
    { hset.frame with program := { hset.frame.program with } }⟩
  simp [LSQUnit.setStore, LSQUnit.answered, hcom, hleft]

/-- What `sendStorePackets` leaves behind. -/
structure SentStore (P : Params) (init : ℕ → Byte) (s s' : LSQUnit) : Prop where
  ok : StoresOk P init s'
  frame : StoreFrame s s'
  wb : s'.storeWBIt = s.storeWBIt
  all : (s'.stores s.storeWBIt).request.any (fun r => r.sent) = true →
    s'.isStoreBlocked = false ∧ sentPackets (s'.stores s.storeWBIt).request
      = (P.packets (s.stores s.storeWBIt).op.toAccess).length

/-- **The packets of a store, one after the other.** -/
theorem StoresOk.sendStorePackets (h : StoresOk P init s) (pkts : List Packet) {r : Request}
    (hlt : s.storeWBIt < s.storeTail) (hcom : (s.stores s.storeWBIt).committed = true)
    (hreq : (s.stores s.storeWBIt).request = some r)
    (hdrop : (P.packets (s.stores s.storeWBIt).op.toAccess).drop (sentPackets (some r)) = pkts)
    (hblocked : pkts = [] → s.isStoreBlocked = false) :
    SentStore P init s (LSQUnit.sendStorePackets s.storeWBIt pkts s) := by
  induction pkts generalizing s r with
  | nil =>
    refine ⟨h, .refl s, rfl, ?_⟩
    intro _
    refine ⟨hblocked rfl, ?_⟩
    have hle := (h.ok _ hlt).sent_le
    have hge := List.drop_eq_nil_iff.mp hdrop
    rw [hreq] at hle
    have heq : sentPackets (some r)
        = (P.packets (s.stores s.storeWBIt).op.toAccess).length := le_antisymm hle hge
    rw [← heq, ← hreq]
    rfl
  | cons pkt rest ih =>
    by_cases hans : s.answer = true
    · -- the packet was sent, and the others follow
      have hstep : LSQUnit.sendStorePackets s.storeWBIt (pkt :: rest) s
          = LSQUnit.sendStorePackets s.storeWBIt rest (s.afterPacket pkt) := by
        rw [LSQUnit.sendStorePackets]
        rw [if_pos hans]
        rfl
      have hself := s.afterPacket_self pkt
      have hop : ((s.afterPacket pkt).stores s.storeWBIt).op = (s.stores s.storeWBIt).op := by
        rw [hself]
      have hreq' : ((s.afterPacket pkt).stores s.storeWBIt).request
          = some (LSQUnit.packetSent r) := by
        rw [hself, hreq]
        rfl
      have hdrop' : (P.packets ((s.afterPacket pkt).stores s.storeWBIt).op.toAccess).drop
          (sentPackets (some (LSQUnit.packetSent r))) = rest := by
        rw [hop]
        exact P.drop_succ hdrop
      have hrec := ih (h.afterPacket hlt hcom hreq hdrop) hlt
        (by rw [LSQUnit.afterPacket_storeWBIt, hself]; exact hcom) hreq' hdrop' (fun _ => rfl)
      rw [hstep]
      refine ⟨hrec.ok, (StoreFrame.afterPacket s pkt).trans hrec.frame, hrec.wb, ?_⟩
      intro hany
      obtain ⟨hfree, hall⟩ := hrec.all hany
      exact ⟨hfree, hall.trans (by rw [LSQUnit.afterPacket_storeWBIt, hop])⟩
    · -- the packet was not sent: the store is blocked
      have hleft := P.lt_length_of_drop hdrop
      rw [← hreq] at hleft
      have hstep : LSQUnit.sendStorePackets s.storeWBIt (pkt :: rest) s
          = { s.answered.setStore s.storeWBIt { s.stores s.storeWBIt with
                request := (s.stores s.storeWBIt).request.map LSQUnit.packetNotSent } with
              isStoreBlocked := true } := by
        rw [LSQUnit.sendStorePackets]
        rw [if_neg hans]
      rw [hstep]
      obtain ⟨hok, hframe⟩ := h.packetNotSent hlt hcom hleft
      refine ⟨hok, hframe, rfl, fun hany => ?_⟩
      -- the flag was just cleared
      simp [LSQUnit.setStore, LSQUnit.answered, hreq, LSQUnit.packetNotSent] at hany

/-! ## Writing back -/

/-- `storeWBIt` moves past a store all of whose packets were sent. -/
theorem StoresOk.advance (h : StoresOk P init s) (hlt : s.storeWBIt < s.storeTail)
    (hfree : s.isStoreBlocked = false)
    (hall : sentPackets (s.stores s.storeWBIt).request
      = (P.packets (s.stores s.storeWBIt).op.toAccess).length) :
    StoresOk P init { s with storeWBIt := s.storeWBIt + 1 } where
  ok := h.ok
  wb_le := hlt
  sent k hk := by
    have hk' : k < s.storeWBIt + 1 := hk
    by_cases hwb : k = s.storeWBIt
    · rw [hwb]; exact hall
    · exact h.sent k (by omega)
  waiting k hwb hk := h.waiting k (Nat.lt_of_succ_lt hwb) hk
  blocked hb := absurd (hfree.symm.trans hb) Bool.false_ne_true
  loads_executed := h.loads_executed
  memory_eq := h.memory_eq

theorem LSQUnit.view_unstall (s : LSQUnit) (n : ℕ) : (s.unstall n).view = s.view := by
  unfold LSQUnit.unstall
  split <;> rfl

theorem storeStep_storePostSend (h : StoresOk P init s) (hlt : s.storeWBIt < s.storeTail)
    (hfree : s.isStoreBlocked = false)
    (hall : sentPackets (s.stores s.storeWBIt).request
      = (P.packets (s.stores s.storeWBIt).op.toAccess).length) :
    StoreStep P init s (s.storePostSend P) := by
  have hadv : StoreStep P init s { s with storeWBIt := s.storeWBIt + 1 } :=
    ⟨h.advance hlt hfree hall, { SameProgram.refl s with }, rfl, rfl, fun _ => rfl⟩
  refine hadv.trans (hadv.ok.of_view ?_)
  unfold LSQUnit.storePostSend LSQUnit.unstall
  dsimp only
  split <;> rfl

/-- **Sending what is left of the store at `storeWBIt`.** -/
theorem storeStep_sendStore (h : StoresOk P init s) (hlt : s.storeWBIt < s.storeTail)
    (hcom : (s.stores s.storeWBIt).committed = true)
    (hleft : sentPackets (s.stores s.storeWBIt).request
      < (P.packets (s.stores s.storeWBIt).op.toAccess).length) :
    Ok (StoreStep P init s) ⊤ (s.sendStore P) := by
  unfold LSQUnit.sendStore
  dsimp only
  cases hreq : (s.stores s.storeWBIt).request with
  | none => exact trivial
  | some r =>
    refine Ok.assert (fun _ => ?_)
    rw [hreq] at hleft
    have hdrop : (P.packets (s.stores s.storeWBIt).op.toAccess).drop (sentPackets (some r))
        = LSQUnit.unsent P (s.stores s.storeWBIt).op.toAccess r := rfl
    have hsent := h.sendStorePackets _ hlt hcom hreq hdrop
      (fun hnil => absurd (List.drop_eq_nil_iff.mp (hdrop.trans hnil)) (Nat.not_le.mpr hleft))
    by_cases hany : ((LSQUnit.sendStorePackets s.storeWBIt
        (LSQUnit.unsent P (s.stores s.storeWBIt).op.toAccess r) s).stores
        s.storeWBIt).request.any (fun r => r.sent) = true
    · rw [hsent.wb, if_pos hany, Ok.pure_iff]
      obtain ⟨hfree, hall⟩ := hsent.all hany
      have hop := (hsent.frame.program.stores s.storeWBIt).2.1
      have hpost := storeStep_storePostSend hsent.ok
        (by rw [hsent.wb, hsent.frame.program.storeTail]; exact hlt) hfree
        (by rw [hsent.wb, hop]; exact hall)
      exact ⟨hpost.ok, hsent.frame.trans hpost.frame⟩
    · rw [hsent.wb, if_neg hany, Ok.pure_iff]
      exact ⟨hsent.ok, hsent.frame⟩

theorem storeStep_recvRetry (h : StoresOk P init s) :
    Ok (StoreStep P init s) ⊤ (s.recvRetry P) := by
  unfold LSQUnit.recvRetry
  by_cases hb : s.isStoreBlocked = true
  · rw [if_pos hb]
    unfold LSQUnit.writebackBlockedStore
    refine Ok.assert (fun _ => ?_)
    obtain ⟨hlt, hcom, hleft⟩ := h.blocked hb
    exact storeStep_sendStore h hlt hcom hleft
  · rw [if_neg hb]
    exact ⟨h, .refl s⟩

theorem storeStep_commitData (h : StoresOk P init s) (hlt : s.storeWBIt < s.storeTail)
    (hcan : (s.stores s.storeWBIt).canWB = true) :
    StoreStep P init s (s.setStore s.storeWBIt (LSQUnit.commitData (s.stores s.storeWBIt))) := by
  have hok := h.ok _ hlt
  have hex := hok.canWB_of hcan
  refine ⟨h.setStore ?_ rfl rfl (fun _ => rfl) (fun hwb => absurd hwb (lt_irrefl _)) ?_,
    .setStore ⟨rfl, rfl, rfl⟩ rfl⟩
  · refine ⟨hok.effAddr_of, hok.entry_of, hok.idle, hok.canWB_of, ?_, hok.sent_le, fun _ => rfl⟩
    intro _
    refine ⟨hcan, ?_⟩
    intro i hi
    refine Eq.trans ?_ ((hok.entry_of hex).2 i hi)
    unfold LSQUnit.commitData StoreInst.entryByte
    split <;> rfl
  · exact fun _ p hp hsq => h.loads_executed _ p hlt hp hcan hsq

/-- **The loop of `writebackStores`.** -/
theorem storeStep_writebackLoop (n : ℕ) (h : StoresOk P init s) :
    Ok (StoreStep P init s) ⊤ (LSQUnit.writebackLoop P n s) := by
  induction n generalizing s with
  | zero => exact ⟨h, .refl s⟩
  | succ n ih =>
    unfold LSQUnit.writebackLoop
    by_cases hgo : (s.canWriteback P && s.answer) = true
    · rw [if_pos hgo]
      have hcw : s.canWriteback P = true := (Bool.and_eq_true_iff.mp hgo).1
      simp only [LSQUnit.canWriteback, Bool.and_eq_true, decide_eq_true_eq] at hcw
      obtain ⟨⟨⟨-, -, hlt⟩, hcan⟩, -⟩ := hcw
      -- the answer for the port is the only thing that changed
      have hans : StoreStep P init s s.answered := h.of_view rfl
      have hok := h.ok _ hlt
      by_cases hb : s.answered.isStoreBlocked = true
      · rw [if_pos hb]
        exact hans
      · rw [if_neg hb]
        -- a store that can be written back has executed, so its entry has a size
        have hsize : (s.answered.stores s.answered.storeWBIt).size ≠ 0 := by
          have hsz := (hok.entry_of (hok.canWB_of hcan)).1
          have hpos := (s.stores s.storeWBIt).op.size_pos
          intro hzero
          have hzero' : (s.stores s.storeWBIt).size = 0 := hzero
          omega
        rw [if_neg hsize]
        refine Ok.assert (fun _ => ?_)
        refine Ok.assert (fun hnot => ?_)
        have hcom : (s.stores s.storeWBIt).committed = false := by
          rw [Bool.not_eq_true'] at hnot
          exact hnot
        have hdata := storeStep_commitData hans.ok hlt hcan
        have hself := s.answered.setStore_self s.answered.storeWBIt
          (LSQUnit.commitData (s.answered.stores s.answered.storeWBIt))
        have hsend := storeStep_sendStore hdata.ok hlt (by exact congrArg StoreInst.committed hself)
          (by
            have hzero := hok.sentPackets_eq_zero hcom
            have hne := P.packets_ne_nil (s.stores s.storeWBIt).op.toAccess
            have hreq := congrArg (fun st : StoreInst => sentPackets st.request) hself
            have hop := congrArg (fun st : StoreInst => (P.packets st.op.toAccess).length) hself
            refine lt_of_eq_of_lt (hreq.trans hzero) (lt_of_lt_of_eq ?_ hop.symm)
            exact List.length_pos_iff.mpr hne)
        refine hsend.bind ?_
        intro s' hs'
        exact (ih hs'.ok).imp (fun _ h' => (hans.trans (hdata.trans hs')).trans h')
    · rw [if_neg hgo]
      exact ⟨h, .refl s⟩

theorem storeStep_writebackStores (h : StoresOk P init s) :
    Ok (StoreStep P init s) ⊤ (s.writebackStores P) := by
  unfold LSQUnit.writebackStores
  refine (storeStep_recvRetry h).bind ?_
  intro s' hs'
  exact (storeStep_writebackLoop _ hs'.ok).imp (fun _ h' => hs'.trans h')

/-! ## Responses and commit -/

theorem LSQUnit.view_popCompleted (n : ℕ) (s : LSQUnit) :
    (LSQUnit.popCompleted n s).view = s.view := by
  induction n generalizing s with
  | zero => rfl
  | succ n ih =>
    unfold LSQUnit.popCompleted
    dsimp only
    split
    · exact ih _
    · rfl

theorem storeStep_completeStore (h : StoresOk P init s) (hk : k < s.storeTail) :
    Ok (StoreStep P init s) ⊤ (s.completeStore P k) := by
  unfold LSQUnit.completeStore
  refine Ok.assert (fun _ => ?_)
  rw [Ok.pure_iff]
  have hset : StoreStep P init s (s.setStore k { s.stores k with completed := true }) :=
    ⟨h.setStore { h.ok k hk with } rfl rfl id (fun hwb => h.waiting k hwb hk)
        (fun hcan p hp hsq => h.loads_executed k p hk hp hcan hsq),
      .setStore ⟨rfl, rfl, rfl⟩ rfl⟩
  refine hset.trans (hset.ok.of_view ((LSQUnit.view_unstall ..).trans ?_))
  split
  · exact LSQUnit.view_popCompleted ..
  · rfl

theorem storeStep_recvStoreResp (h : StoresOk P init s) (hk : k < s.storeTail)
    (hout : ∀ r, (s.stores k).request = some r → 0 < r.numOutstandingPackets) :
    Ok (StoreStep P init s) ⊤ (s.recvStoreResp P k) := by
  unfold LSQUnit.recvStoreResp
  dsimp only
  cases hreq : (s.stores k).request with
  | none => exact trivial
  | some r =>
    refine Ok.assert (fun _ => ?_)
    have hpos := hout r hreq
    -- a packet that was sent is now one that was answered
    have hsum : sentPackets (some { r with
        numOutstandingPackets := r.numOutstandingPackets - 1
        numReceivedPackets := r.numReceivedPackets + 1 })
        = sentPackets (s.stores k).request := by
      rw [hreq, sentPackets, sentPackets]
      dsimp only
      omega
    have hcom : (s.stores k).committed = true := (h.ok k hk).sent_of (by
      rw [hreq, sentPackets]
      omega)
    have hset := h.setRequest hk hcom hsum
    split
    · exact (storeStep_completeStore hset.ok hk).imp (fun _ h' => hset.trans h')
    · exact hset

/-- Stores that may commit: they and the loads before them have executed. -/
def CanCommit (s : LSQUnit) (k : ℕ) : Prop :=
  (s.stores k).executed = true
    ∧ ∀ p, p < s.loadTail → (s.loads p).sqIt ≤ k → (s.loads p).executed = true

theorem storeStep_commitStores {y : ℕ} (n : ℕ) (h : StoresOk P init s) (hk : k + n ≤ s.storeTail)
    (hcan : ∀ j, k ≤ j → j < s.storeTail → (s.stores j).seqNum ≤ y → CanCommit s j) :
    StoreStep P init s (LSQUnit.commitStores y n k s) := by
  induction n generalizing s k with
  | zero => exact ⟨h, .refl s⟩
  | succ n ih =>
    unfold LSQUnit.commitStores
    dsimp only
    have hkt : k < s.storeTail := by omega
    split
    · exact ih h (by omega) (fun j hj => hcan j (by omega))
    · by_cases hy : y < (s.stores k).seqNum
      · rw [if_pos hy]
        exact ⟨h, .refl s⟩
      · rw [if_neg hy]
        have hok := h.ok k hkt
        obtain ⟨hex, hloads⟩ := hcan k (le_refl k) hkt (by omega)
        have hcanWB : StoreStep P init s (s.setStore k { s.stores k with canWB := true }) :=
          ⟨h.setStore { hok with
              canWB_of := fun _ => hex, committed_of := fun hc => ⟨rfl, (hok.committed_of hc).2⟩ }
              rfl rfl id (fun hwb => h.waiting k hwb hkt) (fun _ => hloads),
            .setStore ⟨rfl, rfl, rfl⟩ rfl⟩
        have hset : StoreStep P init s
            { s.setStore k { s.stores k with canWB := true } with
              storesToWB := s.storesToWB + 1 } := hcanWB.trans (hcanWB.ok.of_view rfl)
        refine hset.trans (ih hset.ok (by exact (by omega : k + 1 + n ≤ s.storeTail)) ?_)
        intro j hj hjt hseq
        rw [(hset.frame.program.stores j).1] at hseq
        obtain ⟨hexj, hloadsj⟩ := hcan j (by omega) hjt hseq
        exact ⟨(hset.frame.executed j).trans hexj, hloadsj⟩

end Lsq

end Bindu.O3
