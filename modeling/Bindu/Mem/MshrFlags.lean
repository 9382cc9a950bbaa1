/-
The flags of the two target lists of an MSHR, and what they sum up.

`populateFlags` makes the flags of a list consistent with its packets, and `add` keeps them so. The
one operation that changes a list and leaves its flags alone is `promoteIf`, which moves deferred
targets to the target list: its last comment announces an update for the target lists, but only the
flags of the deferred ones are populated again. `promoteWritable` sets `needsWritable` itself; what
the promoted targets would set besides, to allocate on a fill for example, is not noted.

Source: `mem/cache/mshr.cc`.
-/
import Bindu.Lib.Runs
import Bindu.Mem.Mshr

namespace Bindu.Mem

open Bindu.Lib TargetList List Ok

namespace MSHR

/-- The flags of both lists cover their targets. -/
def Covered (m : MSHR) : Prop := m.targets.Covers ∧ m.deferredTargets.Covers

/-- The deferred targets that a call promotes without a look at their flags. -/
def promoted (m : MSHR) : MshrCall → List Target
  | .promoteReadable =>
    if m.postInvalidate then []
    else m.deferredTargets.list.takeWhile
      (fun t => !t.pkt.req.isCacheInvalidate && !t.pkt.cmd.needsWritable)
  | .promoteWritable =>
    if !m.deferredTargets.needsWritable || m.postInvalidate || m.postDowngrade then []
    else m.deferredTargets.list.takeWhile (fun t => !t.pkt.req.isCacheInvalidate)
  | _ => []

/-- The target list has the flags of the promoted targets already. -/
def Flagged (m : MSHR) (c : MshrCall) : Prop :=
  ∀ t ∈ m.promoted c, ∀ f ≠ Flag.needsWritable, t.sets f = true → m.targets.flag f = true

instance (m : MSHR) (c : MshrCall) : Decidable (m.Flagged c) :=
  inferInstanceAs (Decidable (∀ t ∈ m.promoted c, _))

variable {m : MSHR}

theorem covers_of_any {l : TargetList} (h : ∀ f, l.flag f = l.list.any (·.sets f)) : l.Covers :=
  fun t ht f hf => (h f).trans (any_eq_true.2 ⟨t, ht, hf⟩)

theorem covers_nil {l : TargetList} (h : l.list = []) : l.Covers :=
  fun _ ht => absurd (h ▸ ht) not_mem_nil

theorem covers_added {l l' : TargetList} {t : Target} (h : Added l t l') (hl : l.Covers) :
    l'.Covers := by
  intro s hs f hf
  rw [h.flag, Bool.or_eq_true]
  rw [h.list, mem_append, mem_singleton] at hs
  obtain hs | rfl := hs
  · exact .inl (hl s hs f hf)
  · exact .inr hf

theorem splitDeferred_takeWhile {pred : Target → Except Fault Bool} {P : Target → Bool}
    (hpred : ∀ t b, pred t = .ok b → b = P t) (l : List Target) :
    Ok (fun r => r.1 = l.takeWhile P) Any (splitDeferred pred l) := by
  induction l with
  | nil => exact rfl
  | cons t rest ih =>
    unfold splitDeferred
    cases ht : pred t with
    | error e => exact trivial
    | ok b =>
      rw [ok_bind, takeWhile_cons, ← hpred t b ht]
      cases b with
      | false => exact rfl
      | true => exact bind ih (fun r hr => congrArg (t :: ·) hr)

/-- The target list is covered after `promoteIf` if and only if it has the flags of what was
promoted. -/
theorem promoteIf_covers (up : Upstream) {pred : Target → Except Fault Bool} {P : Target → Bool}
    (hpred : ∀ t b, pred t = .ok b → b = P t) (h : m.targets.Covers) :
    Ok (fun r => r.2.Covered ↔ ∀ t ∈ m.deferredTargets.list.takeWhile P, ∀ f, t.sets f = true
      → m.targets.flag f = true) Any (m.promoteIf up pred) := by
  refine (promoteIf_ok up m pred).imp ?_
  rintro r ⟨first, left, deferred, hsplit, ⟨hlist, hflag⟩, hm⟩
  have hfirst : first = _ := (splitDeferred_takeWhile hpred _).elim hsplit
  rw [hm, Covered, ← hfirst, and_iff_left (covers_of_any (hlist ▸ hflag)), Covers,
    forall_mem_append, forall_mem_map]
  have hkeep : ∀ list f, { m.targets with list := list }.flag f = m.targets.flag f :=
    fun list f => by cases f <;> rfl
  have hsets : ∀ (t : Target) f, t.unmarked.sets f = t.sets f := fun t f => by cases f <;> rfl
  simp only [hkeep, hsets]
  exact and_iff_right h

theorem promoteReadable_covers (up : Upstream) (h : m.Covered) :
    Ok (fun r => r.2.Covered ↔ m.Flagged .promoteReadable) Any (m.promoteReadable up) := by
  unfold promoteReadable hasPostInvalidate
  split
  case isTrue hempty =>
    refine iff_of_true h fun t ht => ?_
    rw [promoted, isEmpty_iff.1 hempty, takeWhile_nil, ite_self] at ht
    cases ht
  refine bind (assert (fun _ => rfl)) ?_
  rintro _ rfl
  split
  case isTrue hpost =>
    refine iff_of_true h fun t ht => ?_
    rw [promoted, if_pos hpost] at ht
    cases ht
  case isFalse hpost =>
    refine (promoteIf_covers up (P := fun t => !t.pkt.req.isCacheInvalidate
      && !t.pkt.cmd.needsWritable) ?_ h.1).imp fun r hr => hr.trans ?_
    · intro t b hb
      obtain ⟨-, -, hb⟩ := bind_eq_ok.1 hb
      cases hinv : t.pkt.req.isCacheInvalidate
      · rw [hinv] at hb
        obtain ⟨w, hw, hb⟩ := bind_eq_ok.1 hb
        obtain ⟨-, -, hw⟩ := bind_eq_ok.1 hw
        cases hw
        cases hb
        rfl
      · rw [hinv] at hb
        cases hb
        rfl
    · rw [Flagged, promoted, if_neg hpost]
      refine ⟨fun hall t ht f _ => hall t ht f, fun hall t ht f hf => hall t ht f ?_ hf⟩
      -- what is promoted needs no writable copy
      rintro rfl
      have hP := all_eq_true.1 all_takeWhile t ht
      simp only [Bool.and_eq_true, Bool.not_eq_true'] at hP
      simp [Target.sets, needs, Target.role, hP.2] at hf

theorem promoteWritable_covers (up : Upstream) (h : m.Covered) :
    Ok (fun r => r.2.Covered ↔ m.Flagged .promoteWritable) Any (m.promoteWritable up) := by
  have hnone : (!m.deferredTargets.needsWritable || m.postInvalidate || m.postDowngrade) = true →
      (m.Covered ↔ m.Flagged .promoteWritable) := by
    refine fun hno => iff_of_true h fun t ht => ?_
    rw [promoted, if_pos hno] at ht
    cases ht
  unfold promoteWritable hasPostInvalidate hasPostDowngrade
  split
  case isTrue hno => exact hnone (by rw [hno]; rfl)
  case isFalse hneeds =>
  refine bind (assert (fun _ => rfl)) ?_
  rintro _ rfl
  refine bind (assert (fun _ => rfl)) ?_
  rintro _ rfl
  split
  case isTrue hpost => exact hnone (by rw [Bool.or_assoc, hpost, Bool.or_true])
  case isFalse hpost =>
    refine assert (fun _ => ?_)
    refine (promoteIf_covers up (P := fun t => !t.pkt.req.isCacheInvalidate) ?_ ?_).imp
      fun r hr => hr.trans ?_
    · intro t b hb
      obtain ⟨-, -, hb⟩ := bind_eq_ok.1 hb
      cases hb
      rfl
    · intro t ht f hf
      have := h.1 t ht f hf
      cases f <;> first | exact rfl | exact this
    · rw [Flagged, promoted, if_neg (by simp_all)]
      refine ⟨fun hall t ht f hne hf => ?_, fun hall t ht f hf => ?_⟩
      · have := hall t ht f hf
        cases f <;> first | exact absurd rfl hne | exact this
      · have := fun hne => hall t ht f hne hf
        cases f <;> first | exact rfl | exact this (by decide)

theorem extractServiceableTargets_covers (cmd : MemCmd) (h : m.Covered) :
    Ok (fun r => r.1.Covers ∧ r.2.Covered) Any (m.extractServiceableTargets cmd) := by
  unfold extractServiceableTargets
  split
  · split
    · exact trivial
    refine assert (fun _ => skip (fun r => ?_))
    refine bind (populateFlags_ok _) (fun ready hready => ?_)
    refine bind (populateFlags_ok _) (fun targets htargets => ?_)
    exact ⟨covers_of_any (hready.1 ▸ hready.2), covers_of_any (htargets.1 ▸ htargets.2), h.2⟩
  · refine bind (populateFlags_ok _) (fun targets htargets => ?_)
    exact ⟨h.1, covers_of_any (htargets.1 ▸ htargets.2), h.2⟩

end MSHR

open MSHR

/-- **One call** on a register whose flags cover its targets. -/
theorem MshrCall.covers (up : Upstream) (now : Tick) (c : MshrCall) {m : MSHR} (h : m.Covered) :
    Ok (fun out => out.mshr.Covered ↔ m.Flagged c) Any (c.apply up now m) := by
  have hother : m.promoted c = [] → ∀ m' : MSHR, m'.Covered → (m'.Covered ↔ m.Flagged c) :=
    fun hnone m' hm' => iff_of_true hm' fun t ht => absurd (hnone ▸ ht) not_mem_nil
  cases c with
  | promoteReadable => exact bind (promoteReadable_covers up h) (fun r hr => hr)
  | promoteWritable => exact bind (promoteWritable_covers up h) (fun r hr => hr)
  | allocate blk_addr blk_size target when_ready order alloc =>
    refine assert (fun hempty => bind ?_ (fun r => hother rfl r.2))
    rw [getNumTargets, beq_iff_eq, Nat.add_eq_zero_iff, length_eq_zero_iff,
      length_eq_zero_iff] at hempty
    refine bind (add_ok ..) (fun r hr => ?_)
    obtain ⟨marked, hadd⟩ := hr
    exact ⟨covers_added hadd (covers_nil hempty.1), covers_nil hempty.2⟩
  | allocateTarget pkt whenReady order alloc =>
    refine bind (allocateTarget_ok up m now pkt whenReady order alloc) ?_
    rintro r ⟨t, -, l, ⟨-, hadd, hm⟩ | ⟨-, hadd, hm⟩⟩
    · exact hother rfl r.2 (hm ▸ ⟨h.1, covers_added hadd h.2⟩)
    · exact hother rfl r.2 (hm ▸ ⟨covers_added hadd h.1, h.2⟩)
  | markInService resp =>
    refine bind (markInService_kept up m resp) (fun r hr => ?_)
    exact hother rfl r.2 ⟨hr.2.2.2.1.covers h.1, hr.2.2.2.2.covers h.2⟩
  | handleSnoop pkt order cp_pkt =>
    refine bind (handleSnoop_ok up m now pkt order cp_pkt) (fun r hr => ?_)
    refine hother rfl r.2.1 ⟨?_, hr.deferred.covers h.2⟩
    obtain ht | ⟨t, -, hadd⟩ := hr.targets
    · exact ht.covers h.1
    · exact covers_added hadd h.1
  | extractServiceableTargets cmd =>
    exact bind (extractServiceableTargets_covers cmd h) (fun r hr => hother rfl r.2 hr.2)
  | promoteDeferredTargets =>
    refine bind ?_ (fun r => hother rfl r.2)
    unfold MSHR.promoteDeferredTargets
    split
    · exact h
    refine bind (populateFlags_ok _) (fun deferred hd => ?_)
    refine bind (populateFlags_ok _) (fun targets ht => skip (fun front => ?_))
    exact ⟨covers_of_any (ht.1 ▸ ht.2), covers_of_any (hd.1 ▸ hd.2)⟩
  | markPending => exact assert (fun _ => hother rfl _ h)
  | deallocate =>
    refine bind ?_ (fun m' => hother rfl m')
    exact assert (fun hempty => assert (fun _ =>
      ⟨covers_nil (isEmpty_iff.1 hempty), h.2⟩))
  | setDownstreamPending => exact assert (fun _ => hother rfl _ h)
  | clearDownstreamPending =>
    refine bind (MSHR.clearDownstreamPending_kept up m) ?_
    rintro r ⟨targets, ht, hm⟩
    exact hother rfl r.2 (hm ▸ ⟨ht.covers h.1, h.2⟩)
  | setForward isForward => exact hother rfl _ h

/-- A register and the calls on it, each with the flags of the MSHRs above and the tick. -/
def callMachine : Machine MSHR (Upstream × Tick × MshrCall) Fault where
  enabled _ _ := true
  exec m e := do
    let out ← e.2.2.apply e.1 e.2.1 m
    pure out.mshr

/-- **The flags cover the targets** of both lists, and of the list that is extracted, in every run
that promotes only targets whose flags are set already; and a further call keeps it so if and only
if it is of this kind. -/
theorem flags_cover_targets {calls : List (Upstream × Tick × MshrCall)} {m : MSHR}
    (hflags : callMachine.AllSteps (fun m e => m.Flagged e.2.2) {} calls)
    (hrun : callMachine.run {} calls = some m) :
    m.targets.Covers ∧ m.deferredTargets.Covers
      ∧ (∀ cmd ready m', m.extractServiceableTargets cmd = .ok (ready, m') → ready.Covers)
      ∧ ∀ up now c out, c.apply up now m = .ok out →
        (out.mshr.targets.Covers ∧ out.mshr.deferredTargets.Covers ↔ m.Flagged c) := by
  have h : m.Covered := by
    refine Machine.run_keeps_of ?_ ⟨covers_nil rfl, covers_nil rfl⟩ hflags hrun
    rintro m ⟨up, now, c⟩ m' h hc ⟨-, hexec⟩
    obtain ⟨out, hout, hpure⟩ := bind_eq_ok.1 hexec
    cases hpure
    exact ((c.covers up now h).elim hout).2 hc
  exact ⟨h.1, h.2, fun cmd ready m' hready =>
    ((extractServiceableTargets_covers cmd h).elim hready).1,
    fun up now c out hout => (c.covers up now h).elim hout⟩

/-- A clean of a block, and a read behind it that is promoted when the clean is answered. Only the
read is certain to allocate the block. -/
def cleanRead (alloc_on_fill : Bool) : List (Upstream × Tick × MshrCall) :=
  [(fun _ => false, 10, .allocate 64 64 { id := 1, cmd := .CleanSharedReq, req := { CLEAN := true } }
     12 0 alloc_on_fill),
   (fun _ => false, 11, .allocateTarget { id := 2, cmd := .ReadReq, addr := 64, size := 8 } 13 1 true),
   (fun _ => false, 12, .markInService false),
   (fun _ => false, 20, .promoteReadable)]

theorem flags_miss_promoted :
    ∃ m, callMachine.run {} (cleanRead false) = some m
      ∧ (∃ t ∈ m.targets.list, t.sets .allocOnFill = true) ∧ m.targets.flag .allocOnFill = false :=
  ⟨_, rfl, ⟨_, mem_cons_of_mem _ mem_cons_self, rfl⟩, rfl⟩

theorem flags_cover_cleanRead :
    ∃ m, callMachine.run {} (cleanRead true) = some m ∧ m.targets.list.length = 2
      ∧ m.targets.Covers := by
  refine ⟨_, rfl, rfl, ?_⟩
  have hflags : callMachine.AllSteps (fun m e => m.Flagged e.2.2) {} (cleanRead true) :=
    Machine.AllSteps.of_check (by decide +kernel)
  exact (flags_cover_targets hflags rfl).1

end Bindu.Mem
