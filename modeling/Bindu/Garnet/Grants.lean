/-
What the switch of a router does to a packet: a grant takes it out of its virtual channel, and
the crossbar takes it to the output port.

Each of the two is a relation between the states before and after, in terms of the places of the
network, with the condition under which the code lets it happen. The code is shown to do nothing
else. All packets have one flit, so the branches for the later flits of a packet do not occur
(`Single`).

Sources: `garnet2.0/SwitchAllocator.cc`, `garnet2.0/CrossbarSwitch.cc`,
`garnet2.0/OutVcState.cc`, `garnet2.0/RoutingUnit.cc`.
-/
import Bindu.Garnet.Places
import Bindu.Garnet.System

open Bindu.Lib

namespace Bindu.Garnet

open NetState Ok

open NetState (Quiet)

/-- All packets have a single flit, so that a virtual channel keeps no output virtual channel
and every credit frees one. A network interface looks for virtual channels where they are. -/
structure Single (net : GarnetNetwork) (s : NetState) : Prop where
  flits : ∀ p, ∀ f ∈ s.flits p, f.m_type = .HEAD_TAIL_
  credits : ∀ p, ∀ c ∈ s.credits p, c.m_is_free_signal = true
  output_vc : ∀ l v, (s.vcInfo l v).m_output_vc = -1
  allocator : ∀ n vnet, s.vcAllocator n vnet < net.m_vcs_per_vnet

/-! ## The two effects -/

/-- An output virtual channel that is taken, with one of its credits. -/
def taken (now : ℕ) (o : OutVcState) : OutVcState :=
  { o with m_credit_count := o.m_credit_count - 1, m_vc_state := .ACTIVE_, m_time := now }

section Effects

variable [StdHeap] (net : GarnetNetwork)

/-- A flit that has been granted output port `outport` and virtual channel `outvc`. -/
def granted (r outport outvc now : ℕ) (f : flit) : flit :=
  (((f.set_outport outport).set_outport_dirn (net.getOutportDirection r outport)).set_vc
    outvc).advance_stage .ST_ now

/-- `SwitchAllocator::arbitrate_outports` for the winner of output port `outport`: the flit in
virtual channel `invc` of the input port `inport`, which reads link `lin`. -/
inductive Grant (r outport inport lin invc : ℕ) (s s' : NetState) : Prop
  | mk (f : flit) (b : flitBuffer flit) (outvc : ℕ)
      (top : ((s.chan lin).m_vcs invc).m_input_buffer.getTopFlit = .ok (f, b))
      (port : f.m_outport = outport)
      (free : is_vc_idle s (net.outLink r outport) outvc = true)
      (vnet : outvc ∈ vcsOf net (invc / net.m_vcs_per_vnet))
      (same : Quiet (((((s.setOutvc (net.outLink r outport) outvc
            (taken s.now (s.outvc (net.outLink r outport) outvc))).setFlits (.vc lin invc)
            b.m_buffer).setVcInfo lin invc ((s.vcInfo lin invc).set_idle s.now)).setFlits
          (.switch r inport)
          ((s.m_switch_buffer r inport).insert (granted net r outport outvc s.now f)).m_buffer)
        |>.setCredits (.queue lin)
          ((s.chan lin).creditQueue.insert ⟨invc, true, s.now⟩).m_buffer) s')
      (wakes : s'.consumer = (s.schedule (.creditLink lin) (s.now + 1)).consumer)

/-- A flit on its way out of the crossbar. -/
def crossed (now : ℕ) (f : flit) : flit := (f.advance_stage .LT_ (now + 1)).set_time (now + 1)

/-- `CrossbarSwitch::wakeup` at input port `inport`; `lout` is the link of the output port. -/
inductive Cross (r inport : ℕ) (s s' : NetState) : Prop
  | mk (f : flit) (b : flitBuffer flit) (lout : ℕ)
      (top : (s.m_switch_buffer r inport).getTopFlit = .ok (f, b)) (ready : f.m_time ≤ s.now)
      (stage : f.is_stage .ST_ s.now = true) (out : lout = net.outLink r f.m_outport.toNat)
      (same : Quiet ((s.setFlits (.switch r inport) b.m_buffer).setFlits (.outBuffer lout)
        ((s.chan lout).m_out_buffer.insert (crossed s.now f)).m_buffer) s')
      (wakes : s'.consumer = (s.schedule (.networkLink lout) (s.now + 1)).consumer)

end Effects

/-! ## Credits and routing -/

theorem OutVcState.decrement_credit_eq (o : OutVcState) :
    o.decrement_credit = if 0 < o.m_credit_count then
      .ok { o with m_credit_count := o.m_credit_count - 1 } else .error .decrement_credit := by
  unfold OutVcState.decrement_credit
  by_cases h : 0 < o.m_credit_count
  · have hle : 0 ≤ o.m_credit_count - 1 := by omega
    simp only [hle, decide_true, assert_true, if_pos h]
    rfl
  · have hle : ¬ 0 ≤ o.m_credit_count - 1 := by omega
    simp only [hle, decide_false, assert_false, if_neg h]
    rfl

theorem OutputUnit.decrement_credit_ok (s : NetState) (l v : ℕ) :
    Ok (fun s' => 0 < (s.outvc l v).m_credit_count ∧ s' = s.setOutvc l v
          { s.outvc l v with m_credit_count := (s.outvc l v).m_credit_count - 1 })
      (fun e => e = .decrement_credit ∧ ¬ 0 < (s.outvc l v).m_credit_count)
      (OutputUnit.decrement_credit s l v) := by
  unfold OutputUnit.decrement_credit
  rw [OutVcState.decrement_credit_eq]
  split_ifs with h
  · exact ⟨h, rfl⟩
  · exact ⟨rfl, h⟩

theorem NetState.random_ok (s : NetState) :
    Ok (fun x : ℕ × NetState => ∃ g, x.2 = { s with rng := g }) ⊤ s.random := by
  unfold random
  cases s.rng with
  | nil => trivial
  | cons x g => exact ⟨g, rfl⟩

/-- **Routing leaves the network alone**, but for the outcomes of `random()`. -/
theorem outportCompute_ok (net : GarnetNetwork) (s : NetState) (r : ℕ) (route : RouteInfo) :
    Ok (fun x : ℕ × NetState => ∃ g, x.2 = { s with rng := g }) ⊤
      (outportCompute net s r route) := by
  have hsame : ∃ g, s = { s with rng := g } := ⟨s.rng, rfl⟩
  have htable : Ok (fun x : ℕ × NetState => ∃ g, x.2 = { s with rng := g }) ⊤
      (do pure (← lookupRoutingTable net s r route.vnet route.net_dest, s)) :=
    skip (fun _ => hsame)
  unfold outportCompute
  split_ifs
  · exact htable
  cases net.m_routing_algorithm with
  | TABLE_ => exact htable
  | XY_ => exact skip (fun _ => hsame)
  | RANDOM_ =>
    refine skip (fun h => ?_)
    split
    · exact hsame
    split
    · exact hsame
    exact s.random_ok.bind (fun _ hx => hx)
  | ADAPT_RAND_ =>
    refine skip (fun h => ?_)
    split
    · exact hsame
    split
    · exact hsame
    exact s.random_ok.bind (fun _ hx => skip (fun _ => hx))
  | WestFirst_ => exact skip (fun _ => s.random_ok.bind (fun _ hx => hx))
  | ADAPT_WestFirst_ =>
    refine skip (fun _ => s.random_ok.bind (fun _ hx => ?_))
    exact skip (fun _ => hx)
  | CUSTOM_ => trivial

theorem NetworkInterface.random_time_spec (s : NetState) (randomized : Bool) :
    Ok (fun x : ℕ × NetState => ∃ g, x.2 = { s with rng := g }) ⊤ (random_time s randomized) := by
  unfold random_time
  split
  · exact ⟨s.rng, rfl⟩
  refine s.random_ok.bind ?_
  rintro ⟨a, s1⟩ ⟨g1, hs1⟩
  refine s1.random_ok.bind ?_
  rintro ⟨b, s2⟩ ⟨g2, hs2⟩
  dsimp only at hs1 hs2 ⊢
  subst hs1 hs2
  split
  · refine (random_ok _).bind ?_
    rintro ⟨c, s3⟩ ⟨g3, hs3⟩
    exact ⟨g3, hs3⟩
  · exact ⟨g2, rfl⟩

theorem flitBuffer.top_of_single [StdHeap] {b b' : flitBuffer flit} {f g : flit}
    (h : b.m_buffer = [g]) (top : b.getTopFlit = .ok (f, b')) : f = g ∧ b'.m_buffer = [] := by
  have hperm := flitBuffer.getTopFlit_perm top
  rw [h] at hperm
  exact (List.cons.inj (List.singleton_perm.mp hperm)).imp Eq.symm Eq.symm

/-! ## The crossbar -/

variable {net : GarnetNetwork} {s s' : NetState}

/-- The crossbar takes the flit of an input port if it is its time. -/
theorem CrossbarSwitch.traverse_spec [StdHeap] (r inport : ℕ) :
    Ok (fun s' => (s' = s ∧ ∀ f, s.flits (.switch r inport) = [f] → f.m_time ≤ s.now →
        ¬ f.is_stage .ST_ s.now = true) ∨ Cross net r inport s s')
      ⊥ (CrossbarSwitch.traverse net r s inport) := by
  unfold CrossbarSwitch.traverse
  cases hready : (s.m_switch_buffer r inport).isReady s.now with
  | false =>
    simp only [hready, Bool.false_eq_true, if_false]
    refine .inl ⟨rfl, fun f hf htime _ => ?_⟩
    have hbuf : (s.m_switch_buffer r inport).m_buffer = [f] := hf
    rw [flitBuffer.isReady, hbuf] at hready
    exact of_decide_eq_false hready htime
  | true =>
    obtain ⟨f, b, top, ht⟩ := flitBuffer.exists_getTopFlit hready
    simp only [hready, top, if_true, ok_bind]
    cases hstage : f.is_stage .ST_ s.now with
    | false =>
      refine .inl ⟨rfl, fun g hg _ => ?_⟩
      rw [← (flitBuffer.top_of_single hg top).1, hstage]
      exact Bool.false_ne_true
    | true =>
      refine .inr ⟨f, b, _, top, ht, hstage, rfl, ?_, rfl⟩
      exact Quiet.schedule _ _ _

/-! ## Switch allocation -/

namespace SwitchAllocator

theorem mem_roundRobin {start n k : ℕ} (h : k ∈ roundRobin start n) : k < n := by
  obtain ⟨j, hj, rfl⟩ := List.mem_map.mp h
  exact Nat.mod_lt _ (lt_of_le_of_lt (Nat.zero_le j) (List.mem_range.mp hj))

/-- Input port `inport` asks for output port `outport` on behalf of virtual channel `invc`. -/
def Requested (net : GarnetNetwork) (s : NetState) (r inport outport invc : ℕ) : Prop :=
  invc < net.m_num_vcs ∧ may_request net s r (net.inLink r inport) invc = .ok true
    ∧ ∃ f, InputUnit.peekTopFlit s (net.inLink r inport) invc = .ok f ∧ f.m_outport.toNat = outport

/-- The first stage moves its pointers, and every request it makes is allowed. -/
theorem arbitrate_inports_spec (r : ℕ) :
    Ok (fun x : NetState × Requests => (∃ g, x.1 = { s with m_round_robin_invc := g })
        ∧ ∀ inport outport invc, x.2 inport = some (outport, invc) →
          inport < net.num_inports r ∧ Requested net s r inport outport invc)
      ⊤ (arbitrate_inports net s r) := by
  unfold arbitrate_inports
  refine foldlM_inv _ ⟨⟨_, rfl⟩, fun _ _ _ h => absurd h (by simp)⟩ ?_
  rintro inport hi ⟨s1, requests⟩ ⟨⟨g, hg⟩, hreq⟩
  subst hg
  rw [List.mem_range] at hi
  unfold arbitrate_inport
  refine (firstM_ok (fun _ _ => triv _)).bind (fun winner hwinner => ?_)
  cases winner with
  | none => exact ⟨⟨g, rfl⟩, hreq⟩
  | some invc =>
    obtain ⟨k, hk, hmay, -⟩ := hwinner
    have hinvc := mem_roundRobin (List.mem_of_getElem? hk)
    cases hpeek : InputUnit.peekTopFlit { s with m_round_robin_invc := g }
        (net.inLink r inport) invc with
    | error e =>
      simp only [hpeek, error_bind]
      trivial
    | ok f =>
      simp only [hpeek, ok_bind]
      refine ⟨⟨_, rfl⟩, ?_⟩
      intro i o v h
      by_cases hii : i = inport
      · subst hii
        simp only [Function.update_self, Option.some.injEq, Prod.mk.injEq] at h
        obtain ⟨rfl, rfl⟩ := h
        exact ⟨hi, hinvc, hmay, f, hpeek, rfl⟩
      · simp only [Function.update_of_ne hii] at h
        exact hreq i o v h

theorem get_vnet_ok (net : GarnetNetwork) (invc : ℕ) :
    Ok (· = invc / net.m_vcs_per_vnet) (fun _ => ¬ invc < net.m_num_vcs) (get_vnet net invc) := by
  refine require_bind (fun hlt hv => ?_) (fun _ => rfl)
  exact of_decide_eq_false hlt (Nat.div_lt_of_lt_mul ((mul_comm _ _).trans_gt hv))

theorem get_outvc_spec (hs : Single net s) (lout lin invc : ℕ) :
    Ok (fun x : ℕ × NetState => is_vc_idle s lout x.1 = true
        ∧ x.1 ∈ vcsOf net (invc / net.m_vcs_per_vnet)
        ∧ x.2 = (s.setOutvc lout x.1 ((s.outvc lout x.1).setState .ACTIVE_ s.now)).setVcInfo lin invc
          ((s.vcInfo lin invc).set_outvc x.1))
      (fun _ => invc < net.m_num_vcs →
        ¬ OutputUnit.has_free_vc net s lout (invc / net.m_vcs_per_vnet) = true)
      (get_outvc net s lout lin invc) := by
  unfold get_outvc vc_allocate
  have houtvc : (InputUnit.vcAt s lin invc).m_output_vc = -1 := hs.output_vc lin invc
  simp only [houtvc, if_true]
  refine ((get_vnet_ok net invc).mono (fun _ h => h) (fun _ h hv => absurd hv h)).bind ?_
  rintro vnet rfl
  unfold OutputUnit.select_free_vc
  cases hfind : (vcsOf net (invc / net.m_vcs_per_vnet)).find? (is_vc_idle s lout) with
  | none =>
    rw [List.find?_eq_none] at hfind
    exact fun _ hfree => absurd (List.any_eq_true.mp hfree) (by simpa using hfind)
  | some outvc =>
    refine ⟨List.find?_some hfind, List.mem_of_find?_eq_some hfind, ?_⟩
    rw [← vcInfo_setOutvc s lout outvc]
    rfl

theorem send_credit_spec [StdHeap] {f : flit} (hf : f.isTail = true) (lin invc : ℕ) :
    Ok (fun s' => s' = ((s.setVcInfo lin invc ((s.vcInfo lin invc).set_idle s.now)).setCredits
        (.queue lin) ((s.chan lin).creditQueue.insert ⟨invc, true, s.now⟩).m_buffer).schedule
          (.creditLink lin) (s.now + 1))
      (fun _ => s.flits (.vc lin invc) ≠ []) (send_credit s lin invc f) := by
  unfold send_credit
  rw [if_pos hf]
  refine require_bind (fun hready hempty => ?_) (fun _ => ?_)
  · have hbuf : (InputUnit.vcAt s lin invc).m_input_buffer.m_buffer = [] := hempty
    simp [flitBuffer.isReady, hbuf] at hready
  · rw [← creditQueue_eq (s.credits_setVcInfo lin invc ((s.vcInfo lin invc).set_idle s.now))]
    rfl

end SwitchAllocator

theorem InputUnit.getTopFlit_spec [StdHeap] (l v : ℕ) :
    Ok (fun x : flit × NetState => ∃ b,
        ((s.chan l).m_vcs v).m_input_buffer.getTopFlit = .ok (x.1, b)
        ∧ x.2 = s.setFlits (.vc l v) b.m_buffer)
      (fun _ => s.flits (.vc l v) = []) (InputUnit.getTopFlit s l v) := by
  unfold InputUnit.getTopFlit
  change Ok _ _ (((s.chan l).m_vcs v).m_input_buffer.getTopFlit >>= _)
  cases top : ((s.chan l).m_vcs v).m_input_buffer.getTopFlit with
  | error e =>
    unfold flitBuffer.getTopFlit at top
    split at top
    · assumption
    · cases top
  | ok x => exact ⟨x.2, rfl, rfl⟩

/-- What keeps a grant from failing: the packet is alone in its virtual channel and bound for the
output port, and the port has a free virtual channel for it, with a credit. -/
structure Grantable (net : GarnetNetwork) (s : NetState) (r outport inport invc : ℕ) (f : flit) :
    Prop where
  range : invc < net.m_num_vcs
  packet : s.flits (.vc (net.inLink r inport) invc) = [f]
  port : f.m_outport = outport
  free : OutputUnit.has_free_vc net s (net.outLink r outport) (invc / net.m_vcs_per_vnet) = true
  credit : ∀ w, is_vc_idle s (net.outLink r outport) w = true →
    0 < (s.outvc (net.outLink r outport) w).m_credit_count

/-- The winner of an output port gets an output virtual channel and leaves. -/
theorem SwitchAllocator.grant_spec [StdHeap] (hs : Single net s) (r outport inport invc : ℕ) :
    Ok (Grant net r outport inport (net.inLink r inport) invc s)
      (fun _ => ∀ f, ¬ Grantable net s r outport inport invc f)
      (grant net s r outport inport invc) := by
  unfold grant
  refine ((get_outvc_spec hs _ _ invc).mono (fun _ h => h) (fun _ h f hg =>
    h hg.range hg.free)).bind ?_
  rintro ⟨outvc, s1⟩ ⟨hfree, hvnet, hs1⟩
  dsimp only at hfree hvnet hs1 ⊢
  have hflits1 : s1.flits = s.flits := by rw [hs1, flits_setVcInfo, flits_setOutvc]
  refine ((InputUnit.getTopFlit_spec _ invc).mono (fun _ h => h) (fun _ h f hg => ?_)).bind ?_
  · rw [hflits1, hg.packet] at h
    cases h
  rintro ⟨f, s2⟩ ⟨b, htop, hs2⟩
  dsimp only at htop hs2 ⊢
  rw [vcBuffer_eq (congrFun hflits1 (.vc _ invc))] at htop
  have htype : f.m_type = .HEAD_TAIL_ := hs.flits (.vc _ invc) f
    ((flitBuffer.getTopFlit_perm htop).mem_iff.mpr List.mem_cons_self)
  have hthe : ∀ g, Grantable net s r outport inport invc g → f = g ∧ b.m_buffer = [] :=
    fun g hg => flitBuffer.top_of_single hg.packet htop
  refine require_bind (fun hno g hg => ?_) (fun hport => ?_)
  · exact of_decide_eq_false hno ((hthe g hg).1 ▸ hg.port)
  have hport : f.m_outport = outport := of_decide_eq_true hport
  have hnow : s2.now = s.now := by rw [hs2, hs1, now_setFlits]; rfl
  refine ((OutputUnit.decrement_credit_ok s2 _ outvc).mono (fun _ h => h) ?_).bind ?_
  · rintro e ⟨-, hno⟩ g hg
    refine hno (lt_of_lt_of_eq (hg.credit outvc hfree) ?_)
    rw [hs2, hs1, outvc_setFlits, outvc_setVcInfo, outvc_setOutvc, if_pos ⟨rfl, rfl⟩]
    rfl
  rintro s3 ⟨-, hs3⟩
  rw [hnow]
  generalize net.inLink r inport = lin at *
  change Ok _ _ (send_credit (s3.setFlits (.switch r inport) ((s3.m_switch_buffer r inport).insert
    (granted net r outport outvc s.now f)).m_buffer) lin invc (granted net r outport outvc s.now f)
      >>= _)
  refine ((send_credit_spec ?_ lin invc).mono (fun _ h => h) (fun _ h g hg => h ?_)).bind ?_
  · simp [flit.isTail, granted, flit.advance_stage, flit.set_vc, flit.set_outport_dirn,
      flit.set_outport, htype]
  · rw [flits_setFlits, if_neg (by simp), hs3, flits_setOutvc, hs2, flits_setFlits, if_pos rfl]
    exact (hthe g hg).2
  rintro s4 hs4
  refine ⟨f, b, outvc, htop, hport, hfree, hvnet, ?_, ?_⟩
  · suffices hq : Quiet _ s4 from hq.trans (by constructor <;> rfl)
    rw [hs4]
    refine Quiet.trans ?_ (Quiet.schedule _ _ _)
    have hqueue : s3.credits = s.credits := by
      rw [hs3, hs2, hs1]
      simp only [credits_setOutvc, credits_setFlits, credits_setVcInfo]
    have hswitch : s3.m_switch_buffer r inport = s.m_switch_buffer r inport := by
      rw [hs3, hs2, hs1]
      rfl
    rw [hswitch, creditQueue_eq ((s3.credits_setFlits _ _).trans hqueue)]
    constructor
    case outvc =>
      funext l v
      simp only [hs3, hs2, hs1, outvc_setCredits, outvc_setVcInfo,
        outvc_setFlits, outvc_setOutvc, and_self, if_true]
      split_ifs <;> rfl
    case vcInfo =>
      funext l v
      simp only [hs3, hs2, hs1, vcInfo_setCredits, vcInfo_setVcInfo,
        vcInfo_setFlits, vcInfo_setOutvc, and_self, if_true]
      split_ifs <;> rfl
    case bubblePos => simp [bubblePos, hs3, hs2, hs1]
    all_goals first | (simp [hs3, hs2, hs1]; done) | (funext q; simp [hs3, hs2, hs1])
  · rw [hs4, hs3, hs2, hs1]
    rfl

end Bindu.Garnet
