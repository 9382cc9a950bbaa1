/-
Fairness of the output arbiters.

Output port `o` of a router looks at the input ports from its pointer on and puts the pointer
behind the one it takes. So an input port that asks and is passed over has come nearer to the
pointer, and nothing but the router itself moves the pointer in between. Less than
`m_num_inports` rounds can pass over the same input port.

Source: `SwitchAllocator::init`, `arbitrate_outports` in `garnet2.0/SwitchAllocator.cc`.
-/
import Bindu.Lib.RoundRobin
import Bindu.Garnet.Frames
import Bindu.Garnet.Mesh

open Bindu.Lib List

namespace Bindu.Garnet

open SwitchAllocator

namespace SwitchAllocator

/-! ## One output port -/

section

variable {requests : Requests} {n o p pointer w v : ℕ}

/-- The pointer of output port `o` after the second stage. -/
def pointerAfter (requests : Requests) (n o pointer : ℕ) : ℕ :=
  match winner requests n o pointer with
  | none => pointer
  | some w => nextPointer w.1 n

theorem ahead_nextPointer (hw : w < n) (p : ℕ) :
    ahead (nextPointer w n) p n = ahead (w + 1) p n := by
  have hmod : nextPointer w n = (w + 1) % n := by
    unfold nextPointer
    split
    · have hlast : w + 1 = n := by omega
      rw [hlast, Nat.mod_self]
    · exact (Nat.mod_eq_of_lt (by omega)).symm
  unfold ahead
  rw [hmod, Nat.mod_mod]

/-- **One round of arbitration.** If `p` asks for the port, the port goes to `p`, or to an input
port from which the pointer comes nearer to `p`. -/
theorem winner_of_request (hp : p < n) (hreq : (requests p).map Prod.fst = some o) (pointer : ℕ) :
    (winner requests n o pointer).map Prod.fst = some p
      ∨ ahead (pointerAfter requests n o pointer) p n < ahead pointer p n := by
  obtain ⟨⟨o', v⟩, hpreq, rfl⟩ := Option.map_eq_some_iff.mp hreq
  have hasks : (requests p).bind (fun q => if q.1 = o' then some (p, q.2) else none)
      = some (p, v) := by
    rw [hpreq]
    exact if_pos rfl
  unfold pointerAfter
  cases hwin : winner requests n o' pointer with
  | none =>
    obtain ⟨b, hb⟩ := exists_findSome_roundRobin (f := fun i => (requests i).bind
      (fun q => if q.1 = o' then some (i, q.2) else none)) hp (by rw [hasks]; simp) pointer
    exact absurd (hwin.symm.trans hb) (by simp)
  | some b =>
    obtain ⟨w, hw, hfw, hbefore⟩ := findSome_roundRobin hwin
    have hb : b.1 = w := by
      obtain ⟨q, -, hq⟩ := Option.bind_eq_some_iff.mp hfw
      split_ifs at hq
      exact congrArg Prod.fst (Option.some.inj hq).symm
    by_cases hwp : w = p
    · left
      change some b.1 = some p
      rw [hb, hwp]
    · right
      have hle : ahead pointer w n ≤ ahead pointer p n := by
        by_contra hlt
        push Not at hlt
        exact absurd (hasks.symm.trans (hbefore p hp hlt)) (by simp)
      change ahead (nextPointer b.1 n) p n < _
      rw [hb, ahead_nextPointer hw]
      exact ahead_next_lt hw hp hwp hle

end

/-! ## The whole second stage -/

variable [StdHeap] {net : GarnetNetwork} {s s' : NetState} {r o p : ℕ} {requests : Requests}

theorem arbitrate_outports_pointer (r : ℕ) (requests : Requests) :
    ∀ (l : List ℕ) (s : NetState), l.Nodup →
      Ok (fun s' => ∀ o, s'.m_round_robin_inport r o = if o ∈ l then
          pointerAfter requests (net.num_inports r) o (s.m_round_robin_inport r o)
          else s.m_round_robin_inport r o)
        ⊤ (l.foldlM (arbitrate_outport net r requests) s) := by
  intro l
  induction l with
  | nil => intro s _ o; rfl
  | cons a l ih =>
    intro s hl
    rw [nodup_cons] at hl
    rw [foldlM_cons]
    refine (arbitrate_outport_switch s r a requests).bind (fun s1 h1 => ?_)
    -- the pointers after output port `a`
    have hp1 : ∀ o, s1.m_round_robin_inport r o = if o = a then
        pointerAfter requests (net.num_inports r) a (s.m_round_robin_inport r a)
        else s.m_round_robin_inport r o := by
      intro o
      unfold pointerAfter
      cases hwin : winner requests (net.num_inports r) a (s.m_round_robin_inport r a) with
      | none =>
        rw [hwin] at h1
        rw [h1]
        split_ifs with ho
        · rw [ho]
        · rfl
      | some w =>
        rw [hwin] at h1
        rw [h1.pointer, setEntry_apply]
        simp only [true_and]
    refine (ih s1 hl.2).imp (fun s' h' o => ?_)
    rw [h' o, hp1 o]
    by_cases hoa : o = a
    · rw [if_neg (hoa ▸ hl.1), if_pos hoa, if_pos (hoa ▸ mem_cons_self), hoa]
    · simp only [mem_cons, hoa, false_or, if_false]

variable (net s r p) in
/-- The output port input port `p` asks for in the first stage. -/
def requestOf : Option ℕ :=
  match arbitrate_inports net s r with
  | .error _ => none
  | .ok (_, requests) => (requests p).map Prod.fst

variable (net s r o) in
/-- The input port that output port `o` goes to when its turn comes in the second stage. -/
def grantOf : Option ℕ :=
  match arbitrate_inports net s r with
  | .error _ => none
  | .ok (s, requests) =>
    match (range o).foldlM (arbitrate_outport net r requests) s with
    | .error _ => none
    | .ok s =>
      (winner requests (net.num_inports r) o (s.m_round_robin_inport r o)).map Prod.fst

/-- **One round of the allocator.** An input port that asks for `o` gets it, or is nearer to the
pointer of `o` than before. -/
theorem wakeup_round (ho : o < net.num_outports r) (hp : p < net.num_inports r)
    (h : wakeup net s r = .ok s') (hreq : requestOf net s r p = some o) :
    grantOf net s r o = some p ∨ ahead (s'.m_round_robin_inport r o) p (net.num_inports r)
        < ahead (s.m_round_robin_inport r o) p (net.num_inports r) := by
  unfold wakeup at h
  obtain ⟨⟨s1, requests⟩, h1, h⟩ := bind_eq_ok.mp h
  obtain ⟨s2, h2, h3⟩ := bind_eq_ok.mp h
  have hptr1 : s1.m_round_robin_inport = s.m_round_robin_inport :=
    congrArg Prod.fst ((keeps_arbitrate_inports s r).elim h1)
  have hptr3 : s'.m_round_robin_inport = s2.m_round_robin_inport :=
    congrArg Prod.fst ((keeps_check_for_wakeup s2 r).elim h3)
  have hptr2 := (arbitrate_outports_pointer r requests _ s1 nodup_range).elim h2 o
  rw [if_pos (mem_range.mpr ho), hptr1] at hptr2
  -- the part of the second stage before the turn of `o`
  obtain ⟨so, hso⟩ : ∃ so, (range o).foldlM (arbitrate_outport net r requests) s1 = .ok so := by
    have hsplit : range (net.num_outports r)
        = range o ++ (range (net.num_outports r - o)).map (o + ·) := by
      rw [← range_add, Nat.add_sub_cancel' ho.le]
    unfold arbitrate_outports at h2
    rw [hsplit, foldlM_append] at h2
    obtain ⟨so, hso, -⟩ := bind_eq_ok.mp h2
    exact ⟨so, hso⟩
  have hptrO := (arbitrate_outports_pointer r requests _ s1 nodup_range).elim hso o
  rw [if_neg (fun hmem => lt_irrefl o (mem_range.mp hmem)), hptr1] at hptrO
  have hgrant : grantOf net s r o = (winner requests (net.num_inports r) o
      (s.m_round_robin_inport r o)).map Prod.fst := by
    simp only [grantOf, h1, hso, hptrO]
  simp only [requestOf, h1] at hreq
  rw [hgrant, hptr3, hptr2]
  exact winner_of_request hp hreq _

end SwitchAllocator

/-! ## Runs -/

section

variable [StdHeap] {net : GarnetNetwork} {s s' : NetState} {r o p : ℕ} {L : List NetState}

/-- A run from `s` to `s'` in which `L` are the states in which the switch allocator of router `r`
wakes up, in order. -/
inductive Rounds (net : GarnetNetwork) (r : ℕ) (s : NetState) : List NetState → NetState → Prop
  | start : Rounds net r s [] s
  | other (L : List NetState) (s1 s2 : NetState) : Rounds net r s L s1 → OtherStep net r s1 s2 →
      Rounds net r s L s2
  | round (L : List NetState) (s1 sa s2 : NetState) : Rounds net r s L s1 →
      Router.beforeSwitch net s1 r = .ok sa → Router.wakeup net s1 r = .ok s2 →
      Rounds net r s (L ++ [sa]) s2

theorem Reachable.exists_rounds (h : Reachable net s s') (r : ℕ) : ∃ L, Rounds net r s L s' := by
  induction h with
  | start => exact ⟨[], .start⟩
  | step s1 s2 _ hstep ih =>
    obtain ⟨L, hL⟩ := ih
    rcases hstep.cases_router r with hwake | hother
    · have hwake' := hwake
      rw [Router.wakeup_eq] at hwake'
      obtain ⟨sa, hsa, -⟩ := bind_eq_ok.mp hwake'
      exact ⟨_, .round L s1 sa s2 hL hsa hwake⟩
    · exact ⟨L, .other L s1 s2 hL hother⟩

/-- **What passing over costs.** Every round in which `p` asks for `o` and does not get it brings
`p` nearer to the pointer of `o`. -/
theorem Rounds.ahead_add_length_le (ho : o < net.num_outports r) (hp : p < net.num_inports r)
    (h : Rounds net r s L s') (hreq : ∀ sa ∈ L, requestOf net sa r p = some o)
    (hgrant : ∀ sa ∈ L, grantOf net sa r o ≠ some p) :
    ahead (s'.m_round_robin_inport r o) p (net.num_inports r) + L.length
      ≤ ahead (s.m_round_robin_inport r o) p (net.num_inports r) := by
  induction h with
  | start => exact le_rfl
  | other L s1 s2 _ hother ih =>
    rw [hother.untouched.pointer r rfl]
    exact ih hreq hgrant
  | round L s1 sa s2 _ hsa hwake ih =>
    have hmem : sa ∈ L ++ [sa] := mem_append_right L (mem_singleton.mpr rfl)
    have hrest := ih (fun x hx => hreq x (mem_append_left _ hx))
      (fun x hx => hgrant x (mem_append_left _ hx))
    -- the pointers are those of `s1` when the allocator wakes up, and the crossbar keeps them
    have hptr : sa.m_round_robin_inport = s1.m_round_robin_inport :=
      congrArg Prod.fst ((keeps_beforeSwitch s1 r).elim hsa)
    rw [Router.wakeup_eq, hsa, ok_bind] at hwake
    obtain ⟨sw, hsw, hcross⟩ := bind_eq_ok.mp hwake
    have hptr' := (crossbar_pointer sw r).elim hcross
    have hround := (wakeup_round ho hp hsw (hreq sa hmem)).resolve_left (hgrant sa hmem)
    rw [hptr] at hround
    rw [hptr', length_append, length_singleton]
    omega

/-- **Output arbitration is fair.** In any `m_num_inports` consecutive rounds in each of which
input port `p` asks for output port `o`, it gets it at least once. -/
theorem output_arbitration_fair (ho : o < net.num_outports r) (hp : p < net.num_inports r)
    (h : Rounds net r s L s') (hlen : L.length = net.num_inports r)
    (hreq : ∀ sa ∈ L, requestOf net sa r p = some o) :
    ∃ sa ∈ L, grantOf net sa r o = some p := by
  by_contra hnone
  push Not at hnone
  have hle := h.ahead_add_length_le ho hp hreq hnone
  have hlt := ahead_lt (s.m_round_robin_inport r o) hp
  omega

/-- In each of `k` wakeups of router `r`, one after the other, input port `p` asks for output
port `o`. -/
def asksInRow (net : GarnetNetwork) (r o p : ℕ) : ℕ → NetState → Bool
  | 0, _ => true
  | k + 1, s =>
    match Router.beforeSwitch net s r, Router.wakeup net s r with
    | .ok sa, .ok s' =>
      decide (requestOf net sa r p = some o) && asksInRow net r o p k s'
    | _, _ => false

theorem Rounds.of_asksInRow {k : ℕ} {s1 : NetState} (h : asksInRow net r o p k s1 = true)
    (hL : Rounds net r s L s1)
    (hreq : ∀ sa ∈ L, requestOf net sa r p = some o) :
    ∃ L' s', Rounds net r s L' s' ∧ L'.length = L.length + k
      ∧ ∀ sa ∈ L', requestOf net sa r p = some o := by
  induction k generalizing L s1 with
  | zero => exact ⟨L, s1, hL, rfl, hreq⟩
  | succ k ih =>
    unfold asksInRow at h
    split at h
    · rename_i sa s2 hsa hwake
      rw [Bool.and_eq_true, decide_eq_true_eq] at h
      obtain ⟨L', s', hL', hlen, hreq'⟩ := ih h.2 (.round L s1 sa s2 hL hsa hwake) (by
        intro x hx
        rcases mem_append.mp hx with hx | hx
        · exact hreq x hx
        · rw [mem_singleton.mp hx]
          exact h.1)
      refine ⟨L', s', hL', ?_, hreq'⟩
      rw [hlen, length_append, length_singleton]
      omega
    · cases h

end

/-- A virtual channel with a packet for output port 0. -/
def waitingVc : VirtualChannel :=
  { VirtualChannel.new with
    m_input_buffer := ⟨[((flit.new 0 0 0 0 (NetworkInterface.routeTo pairNet 0 0 0 {0}) 1
      ⟨0, {0}, 0, 0, 0⟩ 0 false 0).set_outport 0).advance_stage .SA_ 0]⟩
    m_vc_state := (.ACTIVE_, 0) }

/-- Both input ports have a packet for output port 0. -/
def contended : NetState :=
  let s := pairNet.init (fun _ _ => none) (fun _ _ => none) []
  InputUnit.setVc (InputUnit.setVc s (pairNet.inLink 0 0) 0 waitingVc) (pairNet.inLink 0 1) 0
    waitingVc

/-- Input port 1 is passed over in the first of two rounds. -/
theorem output_arbitration_fair_contended :
    ∃ L s', @Rounds sortedHeap pairNet 0 contended L s'
      ∧ ∃ sa ∈ L, @SwitchAllocator.grantOf sortedHeap pairNet sa 0 0 = some 1 := by
  let _ : StdHeap := sortedHeap
  have hasks : asksInRow pairNet 0 0 1 2 contended = true := by decide +kernel
  obtain ⟨L, s', hL, hlen, hreq⟩ := Rounds.of_asksInRow hasks .start (fun _ h => absurd h (by simp))
  exact ⟨L, s', hL, output_arbitration_fair (by decide +kernel) (by decide +kernel) hL
    (hlen.trans (by decide +kernel)) hreq⟩

end Bindu.Garnet
