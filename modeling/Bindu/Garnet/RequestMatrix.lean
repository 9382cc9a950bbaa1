/-
The request matrix of the switch allocator.

In the source the two stages talk through `m_port_requests` and `m_vc_winners`: the first stage
sets an entry, the second one reads it and resets it, and `clear_request_vector` resets the rest.
An entry of `m_vc_winners` is never reset. Here the allocator is written with these two matrices,
and it does what the one in `SwitchAllocator.lean` does, which hands the requests over as values:
if no request is left over from the wakeup before, and none is.

Source: `garnet2.0/SwitchAllocator.cc`.
-/
import Bindu.Lib.Simulation
import Bindu.Garnet.Frames

open Bindu.Lib List

namespace Bindu.Garnet

open SwitchAllocator

/-- The matrices, by output port and input port. -/
structure RequestMatrix where
  m_port_requests : ℕ → ℕ → Bool
  m_vc_winners : ℕ → ℕ → ℕ

namespace RequestMatrix

variable (net : GarnetNetwork)

def place (M : RequestMatrix) (outport inport invc : ℕ) : RequestMatrix where
  m_port_requests := setEntry M.m_port_requests outport inport true
  m_vc_winners := setEntry M.m_vc_winners outport inport invc

def remove (M : RequestMatrix) (outport inport : ℕ) : RequestMatrix :=
  { M with m_port_requests := setEntry M.m_port_requests outport inport false }

def clear_request_vector (r : ℕ) (M : RequestMatrix) : RequestMatrix :=
  { M with m_port_requests := fun i j =>
      if i < net.num_outports r ∧ j < net.num_inports r then false else M.m_port_requests i j }

/-- The body of the outer loop of `arbitrate_inports`. -/
def arbitrate_inport (r : ℕ) (st : NetState × RequestMatrix) (inport : ℕ) :
    Except Fault (NetState × RequestMatrix) := do
  let (s, M) := st
  let l := net.inLink r inport
  let winner ← firstM (may_request net s r l)
    (roundRobin (s.m_round_robin_invc r inport) net.m_num_vcs)
  match winner with
  | none => pure (s, M)
  | some invc => do
      let t_flit ← InputUnit.peekTopFlit s l invc
      let pointer := nextPointer invc net.m_num_vcs
      pure ({ s with m_round_robin_invc := setEntry s.m_round_robin_invc r inport pointer },
        M.place t_flit.m_outport.toNat inport invc)

variable [StdHeap]

/-- The body of the outer loop of `arbitrate_outports`. -/
def arbitrate_outport (r : ℕ) (st : NetState × RequestMatrix) (outport : ℕ) :
    Except Fault (NetState × RequestMatrix) := do
  let (s, M) := st
  match (roundRobin (s.m_round_robin_inport r outport) (net.num_inports r)).find?
      (M.m_port_requests outport) with
  | none => pure (s, M)
  | some inport => do
      let s ← grant net s r outport inport (M.m_vc_winners outport inport)
      pure (s, M.remove outport inport)

/-- `SwitchAllocator::wakeup`. -/
def wakeup (r : ℕ) (st : NetState × RequestMatrix) : Except Fault (NetState × RequestMatrix) := do
  let st ← (range (net.num_inports r)).foldlM (arbitrate_inport net r) st
  let (s, M) ← (range (net.num_outports r)).foldlM (arbitrate_outport net r) st
  let M := clear_request_vector net r M
  let s ← check_for_wakeup net s r
  pure (s, M)

/-- No request is left. -/
def Clear (r : ℕ) (M : RequestMatrix) : Prop :=
  ∀ o < net.num_outports r, ∀ i < net.num_inports r, M.m_port_requests o i = false

/-! ## Entries and requests -/

/-- The virtual channel for which input port `i` asks for output port `o`. -/
def entry (M : RequestMatrix) (o i : ℕ) : Option ℕ :=
  if M.m_port_requests o i then some (M.m_vc_winners o i) else none

/-- The same, read off the requests of the first stage. -/
def asked (requests : Requests) (o i : ℕ) : Option ℕ :=
  (requests i).bind (fun p => if p.1 = o then some p.2 else none)

omit [StdHeap] in
theorem entry_place (M : RequestMatrix) (o0 i0 v o i : ℕ) :
    (M.place o0 i0 v).entry o i = if o = o0 ∧ i = i0 then some v else M.entry o i := by
  unfold entry place
  simp only [setEntry_apply]
  by_cases h : o = o0 ∧ i = i0
  · simp only [if_pos h, if_true]
  · simp only [if_neg h]

omit [StdHeap] in
theorem entry_remove (M : RequestMatrix) {o0 o : ℕ} (h : o ≠ o0) (i0 i : ℕ) :
    (M.remove o0 i0).entry o i = M.entry o i := by
  unfold entry remove
  simp only [setEntry_apply, h, false_and, if_false]

omit [StdHeap] in
theorem winner_eq {requests : Requests} {M : RequestMatrix} {n o : ℕ}
    (h : ∀ i < n, M.entry o i = asked requests o i) (pointer : ℕ) :
    winner requests n o pointer = ((roundRobin pointer n).find? (M.m_port_requests o)).map
        (fun i => (i, M.m_vc_winners o i)) := by
  unfold winner
  have hlt : ∀ i ∈ roundRobin pointer n, i < n := fun i hi => mem_roundRobin hi
  revert hlt
  induction roundRobin pointer n with
  | nil => intro _; rfl
  | cons a l ih =>
    intro hlt
    have ha : (requests a).bind (fun p => if p.1 = o then some (a, p.2) else none)
        = (M.entry o a).map (fun v => (a, v)) := by
      rw [h a (hlt a mem_cons_self)]
      unfold asked
      cases requests a with
      | none => rfl
      | some p => simp only [Option.bind_some, apply_ite (Option.map _), Option.map_some,
          Option.map_none]
    rw [findSome?_cons, ha, find?_cons]
    unfold entry
    cases M.m_port_requests o a with
    | true => rfl
    | false => exact ih (fun i hi => hlt i (mem_cons_of_mem a hi))

/-! ## The two versions side by side -/

variable {net} {r : ℕ} {s : NetState} {M : RequestMatrix} {requests : Requests}

/-- The first stage: the ports still to come have not asked for anything. -/
structure InSync (net : GarnetNetwork) (r : ℕ) (l : List ℕ) (x : NetState × Requests)
    (y : NetState × RequestMatrix) : Prop where
  state : y.1 = x.1
  entries : ∀ o < net.num_outports r, ∀ i < net.num_inports r, y.2.entry o i = asked x.2 o i
  nodup : l.Nodup
  todo : ∀ i ∈ l, i < net.num_inports r ∧ x.2 i = none

omit [StdHeap] in
theorem arbitrate_inports_sim (hM : M.Clear net r) :
    Sim (InSync net r []) (arbitrate_inports net s r)
      ((range (net.num_inports r)).foldlM (arbitrate_inport net r) (s, M)) := by
  refine Sim.foldlM (InSync net r) _ _ _ ?_ ?_
  · refine ⟨rfl, fun o ho i hi => ?_, nodup_range, fun i hi => ⟨mem_range.mp hi, rfl⟩⟩
    unfold entry
    rw [hM o ho i hi]
    rfl
  · rintro a rest ⟨s1, requests⟩ ⟨s2, M1⟩ ⟨hstate, hentries, hnodup, htodo⟩
    subst hstate
    rw [nodup_cons] at hnodup
    have hrest : ∀ i ∈ rest, i < net.num_inports r ∧ requests i = none :=
      fun i hi => htodo i (mem_cons_of_mem a hi)
    unfold SwitchAllocator.arbitrate_inport arbitrate_inport
    refine Sim.skip _ (fun winner => ?_)
    cases winner with
    | none => exact ⟨rfl, hentries, hnodup.2, hrest⟩
    | some invc =>
      refine Sim.skip _ (fun f => ⟨rfl, fun o ho i hi => ?_, hnodup.2, fun i hi => ?_⟩)
      · dsimp only
        rw [entry_place, hentries o ho i hi]
        unfold asked
        by_cases hia : i = a
        · subst hia
          rw [Function.update_self, (htodo i mem_cons_self).2]
          simp only [and_true, Option.bind_none, Option.bind_some, eq_comm]
        · rw [Function.update_of_ne hia, if_neg (fun h => hia h.2)]
      · have hia : i ≠ a := fun h => hnodup.1 (h ▸ hi)
        dsimp only
        rw [Function.update_of_ne hia]
        exact hrest i hi

/-- The second stage: the rows of the ports still to come are as the first stage left them. -/
structure RowsInSync (net : GarnetNetwork) (r : ℕ) (requests : Requests)
    (l : List ℕ) (s : NetState) (y : NetState × RequestMatrix) : Prop where
  state : y.1 = s
  rows : ∀ o ∈ l, ∀ i < net.num_inports r, y.2.entry o i = asked requests o i
  nodup : l.Nodup

theorem arbitrate_outports_sim
    (h : ∀ o < net.num_outports r, ∀ i < net.num_inports r, M.entry o i = asked requests o i) :
    Sim (fun s' y => y.1 = s') (arbitrate_outports net s r requests)
      ((range (net.num_outports r)).foldlM (arbitrate_outport net r) (s, M)) := by
  refine (Sim.foldlM (RowsInSync net r requests) _ s (s, M) ?_ ?_).imp (fun _ _ h => h.state)
  · exact ⟨rfl, fun o ho => h o (mem_range.mp ho), nodup_range⟩
  · rintro a rest s1 ⟨s2, M1⟩ ⟨hstate, hrows, hnodup⟩
    subst hstate
    rw [nodup_cons] at hnodup
    have hrest : ∀ o ∈ rest, ∀ i < net.num_inports r, M1.entry o i = asked requests o i :=
      fun o ho => hrows o (mem_cons_of_mem a ho)
    have hwinner := winner_eq (hrows a mem_cons_self) (s2.m_round_robin_inport r a)
    unfold SwitchAllocator.winner at hwinner
    unfold SwitchAllocator.arbitrate_outport arbitrate_outport
    dsimp only
    rw [hwinner]
    cases (roundRobin (s2.m_round_robin_inport r a) (net.num_inports r)).find?
        (M1.m_port_requests a) with
    | none => exact ⟨rfl, hrest, hnodup.2⟩
    | some inport =>
      change Sim _ (grant net s2 r a inport (M1.m_vc_winners a inport)) _
      rw [← bind_pure (grant net s2 r a inport (M1.m_vc_winners a inport))]
      refine Sim.skip _ (fun s3 => ⟨rfl, fun o ho i hi => ?_, hnodup.2⟩)
      have hoa : o ≠ a := fun hoa => hnodup.1 (hoa ▸ ho)
      rw [entry_remove M1 hoa]
      exact hrest o ho i hi

/-- **The matrix is a channel between the stages and nothing else.** If it is clear when the
allocator wakes up, then the allocator does what it does without a matrix, and the matrix is clear
again afterwards, whatever stands in `m_vc_winners`. -/
theorem wakeup_sim (hM : M.Clear net r) :
    Sim (fun s' y => y.1 = s' ∧ y.2.Clear net r) (SwitchAllocator.wakeup net s r)
      (wakeup net r (s, M)) := by
  unfold SwitchAllocator.wakeup wakeup
  refine (arbitrate_inports_sim hM).bind ?_
  rintro ⟨s1, requests⟩ ⟨s1', M1⟩ ⟨hstate, hentries, -, -⟩
  subst hstate
  refine (arbitrate_outports_sim hentries).bind ?_
  rintro s2 ⟨s2', M2⟩ hstate
  subst hstate
  rw [← bind_pure (check_for_wakeup net s2' r)]
  refine Sim.skip _ (fun s3 => ⟨rfl, fun o ho i hi => ?_⟩)
  exact if_pos ⟨ho, hi⟩

end RequestMatrix

end Bindu.Garnet
