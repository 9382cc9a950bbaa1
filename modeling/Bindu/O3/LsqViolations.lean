/-
Stores that execute after a younger load.

What a load sees changes only when an older store executes. If the load has its address by then
and the store overlaps it, the store comes too late for it, and the scan of `checkViolations`
finds the load or an older one. If the load has no address yet it has got nothing, and if the
store does not overlap it, the store writes none of its bytes.
-/
import Bindu.O3.LsqLoads

open Bindu.Lib

namespace Bindu.O3

namespace Lsq

variable {P : Params} {prog : ℕ → MemInst} {init : ℕ → Byte} {caught : ℕ → Prop}
variable {s : LSQUnit}

/-! ## What a load sees -/

theorem LoadOk.of_seen {sn sn' : ℕ → Byte} {c : Prop} {l : LoadInst} (h : LoadOk P sn c l)
    (hs : ∀ i, i < l.access.size →
      sn' (P.paddr (l.access.addr + i)) = sn (P.paddr (l.access.addr + i))) :
    LoadOk P sn' c l := by
  refine { h with got := fun hc i hi => ?_, result_eq := fun hc v hv i hi => ?_ }
  · rw [hs i (lt_of_lt_of_le hi l.gotBytes_le)]
    exact h.got hc i hi
  · rw [hs i hi]
    exact h.result_eq hc v hv i hi

/-- A load without an address has got nothing that could be wrong. -/
theorem LoadOk.of_idle {sn sn' : ℕ → Byte} {c : Prop} {l : LoadInst} (h : LoadOk P sn c l)
    (hv : l.effAddrValid = false) : LoadOk P sn' c l := by
  obtain ⟨hreq, hwb, hex⟩ := h.idle hv
  refine { h with got := fun _ i hi => ?_, result_eq := fun _ v hres => ?_ }
  · rw [LoadInst.gotBytes, hwb, hreq] at hi
    cases hi
  · have hdone := h.executed_of (by rw [hres]; rfl)
    exact absurd (hex.symm.trans hdone) (by decide)

theorem LoadOk.of_caught {sn sn' : ℕ → Byte} {c c' : Prop} {l : LoadInst} (h : LoadOk P sn c l)
    (hc : c') : LoadOk P sn' c' l :=
  { h with got := fun hn => absurd hc hn, result_eq := fun hn => absurd hc hn }

/-- The store comes too late for the load: it is older, overlaps it, and the load has its
address. -/
def TooLate (s : LSQUnit) (k p : ℕ) : Prop :=
  k < (s.loads p).sqIt ∧ (s.loads p).effAddrValid = true
    ∧ (s.stores k).op.toAccess.Overlaps (s.loads p).access

theorem StoreOk.written {st : StoreInst} (h : StoreOk P st) (hex : st.executed = false)
    (hfit : st.op.size < 256) : StoreOk P (LSQUnit.written st) := by
  refine ⟨fun _ => ⟨rfl, rfl, rfl⟩, fun _ => ⟨Nat.mod_eq_of_lt hfit, ?_⟩,
    nofun, fun _ => rfl, ?_, Nat.zero_le _, fun hx => absurd hx (lt_irrefl 0)⟩
  · intro i hi
    have hi' : i < st.op.size := hi
    unfold StoreInst.entryByte LSQUnit.written StoreOp.byte
    dsimp only
    by_cases hz : st.op.storeNoData = true
    · rw [if_pos hz, if_pos hz]
    · rw [if_neg hz, if_neg hz, Bool.eq_false_of_not_eq_true hz, decide_eq_true hi']
      rfl
  · -- it was not committed before
    intro hcom
    exact absurd (hex.symm.trans (h.executed_of_committed hcom)) (by decide)

/-- **What a load sees after an older store has executed.** -/
theorem Inv.written (h : Inv P prog init caught s) (hsyn : NoSynonyms P.paddr prog)
    (hfit : SizesFit prog) {k : ℕ} (hk : k < s.storeTail)
    (hex : (s.stores k).executed = false) :
    Inv P prog init (fun p => caught p ∨ TooLate s k p)
      (s.setStore k (LSQUnit.written (s.stores k))) := by
  have hok := h.stores.ok k hk
  have hfit' := hfit _ _ (h.order.store_inst k hk)
  have hcan : (s.stores k).canWB = false := by
    rw [← Bool.not_eq_true]
    intro hc
    exact absurd (hex.symm.trans (hok.canWB_of hc)) (by decide)
  have hcom : (s.stores k).committed = false := by
    rw [← Bool.not_eq_true]
    intro hc
    exact absurd (hcan.symm.trans (hok.committed_of hc).1) (by decide)
  refine ⟨h.order.of_same (.setStore ⟨rfl, rfl, rfl⟩), ?_, ?_⟩
  · refine h.stores.setStore (hok.written hex hfit') rfl ?_ id (fun _ => hcom) ?_
    · rw [(hok.idle hex).2]
      rfl
    · intro hc
      exact absurd (hcan.symm.trans hc) (by decide)
  · refine ⟨?_, h.loads.head_le, h.loads.popped⟩
    intro p hp
    have hokp := h.loads.ok p hp
    by_cases hlate : TooLate s k p
    · exact hokp.of_caught (.inr hlate)
    · refine LoadOk.mono (c := caught p) ?_ .inl
      by_cases hv : (s.loads p).effAddrValid = true
      · refine hokp.of_seen ?_
        intro i hi
        refine lastWrite_congr ?_
        intro j hj
        by_cases hjk : j = k
        · -- the store that has executed writes none of the load's bytes
          rw [hjk] at hj ⊢
          have hapart : ¬ (s.stores k).op.toAccess.Overlaps (s.loads p).access :=
            fun hover => hlate ⟨hj, hv, hover⟩
          rw [executedWrites, executedWrites, s.setStore_self, hex]
          exact h.order.writes_eq_none hsyn hp hk
            ⟨Nat.le_add_right _ _, Nat.add_lt_add_left hi _⟩ (le_refl _) hapart
        · rw [executedWrites, executedWrites, s.setStore_of_ne hjk]
      · exact hokp.of_idle (Bool.eq_false_of_not_eq_true hv)

/-! ## The scan -/

/-- **The scan for a store finds every load that it comes too late for, or an older one.** -/
theorem checkViolations_found (effAddr effSize n loadIt : ℕ) {q : ℕ}
    (hmono : ∀ q', loadIt ≤ q' → q' < q → (s.loads q').seqNum < (s.loads q).seqNum)
    (hle : loadIt ≤ q) (hlt : q < loadIt + n) (hvalid : (s.loads q).effAddrValid = true)
    (hlo : (s.loads q).effAddr < effAddr + effSize)
    (hhi : effAddr < (s.loads q).effAddr + (s.loads q).effSize) :
    ∃ v, (LSQUnit.checkViolations P false effAddr effSize n loadIt s).memDepViolator = some v
      ∧ v ≤ (s.loads q).seqNum := by
  induction n generalizing loadIt with
  | zero => omega
  | succ n ih =>
    unfold LSQUnit.checkViolations
    dsimp only
    have hrec : q ≠ loadIt → ∃ v,
        (LSQUnit.checkViolations P false effAddr effSize n (loadIt + 1) s).memDepViolator = some v
          ∧ v ≤ (s.loads q).seqNum := fun hne =>
      ih (loadIt + 1) (fun q' h' hq' => hmono q' (by omega) hq') (by omega) (by omega)
    have hseq : (s.loads loadIt).seqNum ≤ (s.loads q).seqNum := by
      by_cases hq : q = loadIt
      · rw [hq]
      · exact (hmono loadIt (le_refl _) (by omega)).le
    split
    next hinvalid =>
      -- this load has no address yet, so it is not the one looked for
      refine hrec ?_
      intro hq
      rw [← hq, hvalid] at hinvalid
      simp at hinvalid
    next =>
      split
      next =>
        rw [if_neg (by decide)]
        split
        next hany =>
          -- there is an older violator already
          cases hm : s.memDepViolator with
          | none =>
            rw [hm] at hany
            exact absurd (show false = true from hany) (by decide)
          | some v =>
            rw [hm] at hany
            have hv : v < (s.loads loadIt).seqNum := of_decide_eq_true hany
            exact ⟨v, rfl, by omega⟩
        next => exact ⟨_, rfl, hseq⟩
      next hapart =>
        refine hrec ?_
        intro hq
        apply hapart
        rw [← hq, Nat.shiftRight_eq_div_pow, Nat.shiftRight_eq_div_pow,
          Nat.shiftRight_eq_div_pow, Nat.shiftRight_eq_div_pow]
        exact ⟨Nat.div_le_div_right (by omega), Nat.div_le_div_right (by omega)⟩

/-- **`executeStore`**: the invariant, and what it says about the loads it comes too late for. -/
theorem Inv.executeStore (h : Inv P prog init caught s) (hsyn : NoSynonyms P.paddr prog)
    (hfit : SizesFit prog) {k : ℕ} (hk : k < s.storeTail)
    (hex : (s.stores k).executed = false) :
    Ok (fun s' => Inv P prog init (fun p => caught p ∨ TooLate s k p) s'
        ∧ (∀ p, (s'.loads p).core = (s.loads p).core)
        ∧ SameProgram s s'
        ∧ ∀ p < s.loadTail, TooLate s k p →
          ∃ v, s'.memDepViolator = some v ∧ v ≤ (s.loads p).seqNum)
      ⊤ (s.executeStore P k) := by
  have hinv := h.written hsyn hfit hk hex
  have hok := (h.stores.ok k hk).written hex (hfit _ _ (h.order.store_inst k hk))
  have hpos := (s.stores k).op.size_pos
  unfold LSQUnit.executeStore
  refine Ok.assert (fun _ => ?_)
  have hsize : (LSQUnit.written (s.stores k)).size ≠ 0 := by
    have hsz : (LSQUnit.written (s.stores k)).size = (s.stores k).op.size := (hok.entry_of rfl).1
    omega
  rw [if_neg hsize]
  split
  · exact trivial
  · rw [Ok.pure_iff]
    have hcheck := fun p => checkViolations_frame (P := P) p false
      (LSQUnit.written (s.stores k)).effAddr (LSQUnit.written (s.stores k)).effSize
      (s.loadTail - (LSQUnit.written (s.stores k)).lqIt) (LSQUnit.written (s.stores k)).lqIt
      (s.setStore k (LSQUnit.written (s.stores k)))
    refine ⟨?_, fun p => (hcheck p).2, ?_, ?_⟩
    · exact (hcheck 0).1.inv hinv (fun hp => (hinv.loads.ok 0 hp).of_core (hcheck 0).2)
    · have hset : SameProgram s (s.setStore k (LSQUnit.written (s.stores k))) :=
        .setStore ⟨rfl, rfl, rfl⟩
      exact hset.trans (hcheck 0).1.program
    · rintro p hp ⟨hkp, hvalid, hlo, hhi⟩
      obtain ⟨haddr, hsz⟩ := (h.loads.ok p hp).effAddr_of hvalid
      have hlq : (s.stores k).lqIt ≤ p :=
        (h.order.younger_iff p k hp hk).mpr ((h.order.older_iff p k hp hk).mp hkp)
      refine checkViolations_found (s := s.setStore k (LSQUnit.written (s.stores k))) _ _ _ _
        ?_ hlq ?_ hvalid ?_ ?_
      · intro q' _ hq'
        exact h.order.load_mono q' p hq' hp
      · exact (by omega : p < (s.stores k).lqIt + (s.loadTail - (s.stores k).lqIt))
      · exact lt_of_eq_of_lt haddr hhi
      · exact lt_of_lt_of_eq hlo (by rw [← haddr, ← hsz]; rfl)

end Lsq

end Bindu.O3
