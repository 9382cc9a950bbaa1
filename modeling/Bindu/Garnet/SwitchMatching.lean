/-
Switch allocation computes a matching.

A wakeup of the switch allocator and the crossbar moves a set of packets from input virtual
channels to output ports, at most one from each input port and at most one to each output port.
Every packet gets an output virtual channel that was free. The free virtual channel is looked for
in the first stage and taken in the second, and several input ports may have seen the same one;
but an output port takes one packet, and the virtual channels of an output port are taken by
nobody else.

Sources: `garnet2.0/SwitchAllocator.cc`, `garnet2.0/CrossbarSwitch.cc`.
-/
import Bindu.Garnet.RequestMatrix
import Bindu.Garnet.OutputFairness

open Bindu.Lib Function List

namespace Bindu.Garnet

open NetState SwitchAllocator InputUnit

open NetState (Quiet)

/-! ## Ports and links -/

section

variable {net : GarnetNetwork} {r : ℕ}

theorem Wired.inLink_inj (hnet : Wired net) {i i' : ℕ} (hi : i < net.num_inports r)
    (hi' : i' < net.num_inports r) (h : net.inLink r i = net.inLink r i') : i = i' := by
  refine hnet.inport_inj r i i' _ _ (getElem?_eq_getElem hi) (getElem?_eq_getElem hi') ?_
  simpa only [GarnetNetwork.inLink, getElem?_eq_getElem hi, getElem?_eq_getElem hi'] using h

theorem Wired.outLink_inj (hnet : Wired net) {o o' : ℕ} (ho : o < net.num_outports r)
    (ho' : o' < net.num_outports r) (h : net.outLink r o = net.outLink r o') : o = o' := by
  refine hnet.outport_inj r o o' _ _ (getElem?_eq_getElem ho) (getElem?_eq_getElem ho') ?_
  simpa only [GarnetNetwork.outLink, getElem?_eq_getElem ho, getElem?_eq_getElem ho'] using h

end

/-! ## Buffers with one flit -/

theorem flitBuffer.insert_empty [StdHeap] (b : flitBuffer flit) (h : b.m_buffer = []) (f : flit) :
    (b.insert f).m_buffer = [f] := by
  have hperm := b.insert_perm f
  rw [h] at hperm
  exact perm_singleton.mp hperm

/-! ## The first stage -/

/-- What may stop the first stage: a flit in a virtual channel that is not active, or a flit for
an output port that does not exist. -/
def FirstStageFault (e : Fault) : Prop := e = .need_stage ∨ e = .outport_range

namespace SwitchAllocator

section FirstStage

variable {net : GarnetNetwork} {s : NetState} {r l v : ℕ}

theorem peekTopFlit_of_cons {f : flit} {rest : List flit} (h : s.flits (.vc l v) = f :: rest) :
    peekTopFlit s l v = .ok f := by
  unfold peekTopFlit flitBuffer.peekTopFlit
  rw [show (vcAt s l v).m_input_buffer.m_buffer = f :: rest from h]
  rfl

theorem need_stage_faults (s : NetState) (l v : ℕ) (stage : flit_stage) (t : ℕ) :
    Ok (fun b => b = true → ∃ f rest, s.flits (.vc l v) = f :: rest ∧ f.m_time ≤ t) FirstStageFault
      (need_stage s l v stage t) := by
  unfold need_stage VirtualChannel.need_stage
  split
  · rename_i hready
    unfold flitBuffer.isReady at hready
    split at hready
    · cases hready
    · rename_i f rest hbuf
      have hpeek : (vcAt s l v).m_input_buffer.peekTopFlit = .ok f := peekTopFlit_of_cons hbuf
      cases hactive : ((vcAt s l v).m_vc_state.1 = VC_state_type.ACTIVE_
          && (vcAt s l v).m_vc_state.2 ≤ t : Bool) with
      | false => exact .inl rfl
      | true =>
        rw [assert_true, ok_bind, hpeek, ok_bind]
        exact fun _ => ⟨f, rest, hbuf, of_decide_eq_true hready⟩
  · exact fun h => absurd h Bool.false_ne_true

theorem send_allowed_faults (s : NetState) (r l outport : ℕ) (hv : v < net.m_num_vcs) :
    Ok (fun b => b = true →
        OutputUnit.has_free_vc net s (net.outLink r outport) (v / net.m_vcs_per_vnet) = true)
      FirstStageFault (send_allowed net s r l v outport) := by
  unfold send_allowed
  refine ((get_vnet_ok net v).mono (fun _ h => h) (fun _ h => absurd hv h)).bind ?_
  rintro vnet rfl
  split
  · exact fun h => absurd h Bool.false_ne_true
  · rename_i hfree
    rw [Bool.not_eq_true', Bool.not_eq_false] at hfree
    split
    · refine ((firstM_ok (fun w _ => ?_)).imp (fun _ _ => trivial)).bind (fun _ _ _ => hfree)
      exact (need_stage_faults s l w .SA_ s.now).bind (fun _ _ => trivial)
    · exact fun _ => hfree

theorem may_request_faults (s : NetState) (r l : ℕ) (hv : v < net.m_num_vcs) :
    Ok (fun b => b = true → ∃ f rest o, s.flits (.vc l v) = f :: rest ∧ f.m_time ≤ s.now
        ∧ f.m_outport = (o : ℕ) ∧ o < net.num_outports r
        ∧ OutputUnit.has_free_vc net s (net.outLink r o) (v / net.m_vcs_per_vnet) = true)
      FirstStageFault (may_request net s r l v) := by
  unfold may_request
  refine (need_stage_faults s l v .SA_ s.now).bind (fun ready hready => ?_)
  cases ready with
  | false => exact fun h => absurd h Bool.false_ne_true
  | true =>
    obtain ⟨f, rest, hbuf, htime⟩ := hready rfl
    rw [if_pos rfl, peekTopFlit_of_cons hbuf, ok_bind]
    cases hrange : (0 ≤ f.m_outport && f.m_outport < net.num_outports r : Bool) with
    | false => exact .inr rfl
    | true =>
      rw [assert_true, ok_bind]
      rw [Bool.and_eq_true, decide_eq_true_eq, decide_eq_true_eq] at hrange
      refine (send_allowed_faults s r l f.m_outport.toNat hv).imp (fun b hb hbt => ?_)
      exact ⟨f, rest, f.m_outport.toNat, hbuf, htime, by omega, by omega, hb hbt⟩

theorem arbitrate_inports_faults (s : NetState) (r : ℕ) :
    Ok ⊤ FirstStageFault (arbitrate_inports net s r) := by
  unfold arbitrate_inports
  refine Ok.foldlM_inv _ trivial ?_
  rintro inport - ⟨s1, requests⟩ -
  unfold arbitrate_inport
  refine (firstM_ok (fun v hv => (may_request_faults s1 r _ (mem_roundRobin hv)).imp
    (fun _ _ => trivial))).bind (fun winner hwinner => ?_)
  cases winner with
  | none => trivial
  | some invc =>
    obtain ⟨k, hk, hmay, -⟩ := hwinner
    have hinvc := mem_roundRobin (mem_of_getElem? hk)
    obtain ⟨f, rest, o, hbuf, -⟩ := (may_request_faults s1 r _ hinvc).elim hmay rfl
    simp only [peekTopFlit_of_cons hbuf, ok_bind]
    trivial

/-- What a request of the first stage stands for. -/
theorem Requested.packet {inport outport invc : ℕ} (h : Requested net s r inport outport invc) :
    ∃ f rest, s.flits (.vc (net.inLink r inport) invc) = f :: rest ∧ f.m_time ≤ s.now
      ∧ f.m_outport = (outport : ℕ) ∧ outport < net.num_outports r
      ∧ OutputUnit.has_free_vc net s (net.outLink r outport) (invc / net.m_vcs_per_vnet)
        = true := by
  obtain ⟨hv, hmay, f', hpeek, hport⟩ := h
  obtain ⟨f, rest, o, hbuf, htime, hfo, ho, hfree⟩ := (may_request_faults s r _ hv).elim hmay rfl
  rw [peekTopFlit_of_cons hbuf, Except.ok.injEq] at hpeek
  obtain rfl : o = outport := by
    rw [← hport, ← hpeek, hfo]
    rfl
  exact ⟨f, rest, hbuf, htime, hfo, ho, hfree⟩

end FirstStage

end SwitchAllocator

/-! ## One grant -/

section Grants

variable [StdHeap] {net : GarnetNetwork} {s s' : NetState} {r outport inport lin invc : ℕ}

theorem Grant.single (h : Grant net r outport inport (net.inLink r inport) invc s s')
    (hs : Single net s) : Single net s' := by
  obtain ⟨f, b, outvc, top, port, free, vnet, same, wakes⟩ := h
  have htop := flitBuffer.getTopFlit_perm top
  refine ⟨fun p g hg => ?_, fun p c hc => ?_, fun l v => ?_, fun n vn => ?_⟩
  · rw [same.flits, flits_setCredits, flits_setFlits, flits_setVcInfo,
      flits_setFlits, flits_setOutvc] at hg
    split_ifs at hg with hp hq
    · rcases mem_cons.mp ((flitBuffer.insert_perm _ _).mem_iff.mp hg) with rfl | hg
      · exact hs.flits (.vc (net.inLink r inport) invc) f (htop.mem_iff.mpr mem_cons_self)
      · exact hs.flits (.switch r inport) g hg
    · exact hs.flits (.vc (net.inLink r inport) invc) g (htop.mem_iff.mpr (mem_cons_of_mem f hg))
    · exact hs.flits p g hg
  · rw [same.credits, credits_setCredits] at hc
    split_ifs at hc with hp
    · rcases mem_cons.mp ((flitBuffer.insert_perm _ _).mem_iff.mp hc) with rfl | hc
      · rfl
      · exact hs.credits (.queue (net.inLink r inport)) c hc
    · rw [credits_setFlits, credits_setVcInfo, credits_setFlits, credits_setOutvc] at hc
      exact hs.credits p c hc
  · rw [same.vcInfo, vcInfo_setCredits, vcInfo_setFlits, vcInfo_setVcInfo]
    split_ifs
    · rfl
    · rw [vcInfo_setFlits, vcInfo_setOutvc]
      exact hs.output_vc l v
  · rw [same.vcAllocator]
    simpa using hs.allocator n vn

/-- What a grant does to a packet that is alone in its virtual channel, with the crossbar buffer
of its input port empty. -/
structure GrantViews (net : GarnetNetwork) (r outport inport lin invc outvc : ℕ) (f : flit)
    (s s' : NetState) : Prop where
  free : is_vc_idle s (net.outLink r outport) outvc = true
  vnet : outvc ∈ vcsOf net (invc / net.m_vcs_per_vnet)
  now : s'.now = s.now
  flits : ∀ q, s'.flits q = if q = .switch r inport then [granted net r outport outvc s.now f]
    else if q = .vc lin invc then [] else s.flits q
  credits : ∀ q, (s'.credits q).Perm (if q = .queue lin then ⟨invc, true, s.now⟩ :: s.credits q
    else s.credits q)
  outvc_other : ∀ l w, l ≠ net.outLink r outport → s'.outvc l w = s.outvc l w

theorem Grant.views {f : flit} (h : Grant net r outport inport lin invc s s')
    (hbuf : s.flits (.vc lin invc) = [f]) (hswitch : s.flits (.switch r inport) = []) :
    ∃ outvc, GrantViews net r outport inport lin invc outvc f s s' := by
  obtain ⟨f', b, outvc, top, port, free, vnet, same, wakes⟩ := h
  obtain ⟨rfl, hb⟩ := flitBuffer.top_of_single hbuf top
  refine ⟨outvc, free, vnet, ?_, fun q => ?_, fun q => ?_, fun l w hl => ?_⟩
  · rw [same.now]
    simp
  · rw [same.flits, flits_setCredits, flits_setFlits,
      flitBuffer.insert_empty _ hswitch, flits_setVcInfo, flits_setFlits,
      flits_setOutvc, hb]
  · rw [same.credits, credits_setCredits]
    split_ifs with hq
    · rw [hq]
      exact flitBuffer.insert_perm _ _
    · rw [credits_setFlits, credits_setVcInfo, credits_setFlits, credits_setOutvc]
  · rw [same.outvc, outvc_setCredits, outvc_setFlits, outvc_setVcInfo,
      outvc_setFlits, outvc_setOutvc, if_neg (fun h => hl h.1)]

end Grants

/-! ## The second stage -/

/-- A packet that the second stage lets go. -/
structure Winner where
  inport : ℕ
  invc : ℕ
  outvc : ℕ
  packet : flit

/-- **A matching.** `G` gives each output port at most one packet: the one packet of a virtual
channel of an input port that no other output port has a packet from, bound for this output port,
with a virtual channel of its own virtual network that is free. -/
structure Matching (net : GarnetNetwork) (r : ℕ) (s : NetState) (G : ℕ → Option Winner) :
    Prop where
  outport : ∀ o g, G o = some g → o < net.num_outports r
  inport : ∀ o g, G o = some g → g.inport < net.num_inports r
  inport_inj : ∀ o o' g g', G o = some g → G o' = some g' → g.inport = g'.inport → o = o'
  packet : ∀ o g, G o = some g → s.flits (.vc (net.inLink r g.inport) g.invc) = [g.packet]
    ∧ g.packet.m_time ≤ s.now ∧ g.packet.m_outport = o
  outvc : ∀ o g, G o = some g → g.outvc ∈ vcsOf net (g.invc / net.m_vcs_per_vnet)
    ∧ is_vc_idle s (net.outLink r o) g.outvc = true

theorem Matching.empty {net : GarnetNetwork} {r : ℕ} {s : NetState} :
    Matching net r s (fun _ => none) where
  outport _ _ hg := nomatch hg
  inport _ _ hg := nomatch hg
  inport_inj _ _ _ _ hg := nomatch hg
  packet _ _ hg := nomatch hg
  outvc _ _ hg := nomatch hg

/-- The state when the packets of `G` have left their virtual channels and wait in the
crossbar. -/
structure Removed (net : GarnetNetwork) (r : ℕ) (s : NetState) (G : ℕ → Option Winner)
    (s' : NetState) : Prop where
  now : s'.now = s.now
  vc : ∀ o g, G o = some g → s'.flits (.vc (net.inLink r g.inport) g.invc) = []
  vc_other : ∀ i < net.num_inports r, ∀ v, (∀ o g, G o = some g → g.inport = i → g.invc ≠ v) →
    s'.flits (.vc (net.inLink r i) v) = s.flits (.vc (net.inLink r i) v)
  credit : ∀ o g, G o = some g → (s'.credits (.queue (net.inLink r g.inport))).Perm
    (⟨g.invc, true, s.now⟩ :: s.credits (.queue (net.inLink r g.inport)))
  credit_other : ∀ i < net.num_inports r, (∀ o g, G o = some g → g.inport ≠ i) →
    (s'.credits (.queue (net.inLink r i))).Perm (s.credits (.queue (net.inLink r i)))
  switch : ∀ o g, G o = some g →
    s'.flits (.switch r g.inport) = [granted net r o g.outvc s.now g.packet]
  switch_other : ∀ i < net.num_inports r, (∀ o g, G o = some g → g.inport ≠ i) →
    s'.flits (.switch r i) = []
  out : ∀ l, s'.flits (.outBuffer l) = s.flits (.outBuffer l)

/-- What holds when some output ports have had their turn. -/
structure SecondStage (net : GarnetNetwork) (r : ℕ) (requests : Requests)
    (s : NetState) (G : ℕ → Option Winner) (s' : NetState) : Prop where
  matching : Matching net r s G
  removed : Removed net r s G s'
  single : Single net s'
  requested : ∀ o g, G o = some g → requests g.inport = some (o, g.invc)
  outvc : ∀ o < net.num_outports r, G o = none → ∀ w,
    s'.outvc (net.outLink r o) w = s.outvc (net.outLink r o) w

section SecondStage

variable [StdHeap] {net : GarnetNetwork} {s s1 s2 : NetState} {r a i v : ℕ}
  {requests : Requests} {G : ℕ → Option Winner}

omit [StdHeap] in
/-- An input port asks for one output port, so it has been granted nothing before its turn. -/
theorem SecondStage.fresh (h : SecondStage net r requests s G s1) (hGa : G a = none)
    (hreq : requests i = some (a, v)) : ∀ o g, G o = some g → g.inport ≠ i := by
  intro o g hg hgi
  have hog := h.requested o g hg
  rw [hgi, hreq, Option.some.injEq, Prod.mk.injEq] at hog
  rw [← hog.1, hGa] at hg
  cases hg

omit [StdHeap] in
/-- Nor has the output port given one of its virtual channels away. -/
theorem SecondStage.idle (h : SecondStage net r requests s G s1) (ha : a < net.num_outports r)
    (hGa : G a = none) :
    is_vc_idle s1 (net.outLink r a) = is_vc_idle s (net.outLink r a) := by
  funext w
  unfold is_vc_idle
  rw [h.removed.now]
  exact congrArg (OutVcState.isInState · .IDLE_ s.now) (h.outvc a ha hGa w)

omit [StdHeap] in
theorem SecondStage.grant (hnet : Wired net) (h : SecondStage net r requests s G s1)
    (ha : a < net.num_outports r) (hGa : G a = none) (hi : i < net.num_inports r)
    (hreq : requests i = some (a, v)) {w : Winner} (hwi : w.inport = i) (hwv : w.invc = v)
    (hbuf : s.flits (.vc (net.inLink r i) v) = [w.packet]) (htime : w.packet.m_time ≤ s.now)
    (hport : w.packet.m_outport = a) (hs2 : Single net s2)
    (hviews : GrantViews net r a i (net.inLink r i) v w.outvc w.packet s1 s2) :
    SecondStage net r requests s (update G a (some w)) s2 := by
  have hfresh := h.fresh hGa hreq
  have hcases : ∀ {o g}, update G a (some w) o = some g →
      (o = a ∧ g = w) ∨ (o ≠ a ∧ G o = some g) := by
    intro o g hg
    by_cases hoa : o = a
    · rw [hoa, update_self, Option.some.injEq] at hg
      exact .inl ⟨hoa, hg.symm⟩
    · rw [update_of_ne hoa] at hg
      exact .inr ⟨hoa, hg⟩
  have hall : ∀ {p : ℕ → Winner → Prop}, p a w → (∀ o g, G o = some g → p o g) →
      ∀ o g, update G a (some w) o = some g → p o g := by
    intro p hw hG o g hg
    rcases hcases hg with ⟨rfl, rfl⟩ | ⟨-, hg⟩
    · exact hw
    · exact hG o g hg
  have hold : ∀ {o g}, G o = some g → update G a (some w) o = some g := by
    intro o g hg
    rw [update_of_ne (fun hoa => by rw [hoa, hGa] at hg; cases hg)]
    exact hg
  -- links of different ports are different
  have hlin : ∀ {o g}, G o = some g → net.inLink r g.inport ≠ net.inLink r i := fun hg hl =>
    hfresh _ _ hg (hnet.inLink_inj (h.matching.inport _ _ hg) hi hl)
  subst hwi hwv
  refine ⟨⟨?_, ?_, ?_, ?_, ?_⟩, ⟨?_, ?_, ?_, ?_, ?_, ?_, ?_, ?_⟩, hs2, ?_, ?_⟩
  · exact hall ha h.matching.outport
  · exact hall hi h.matching.inport
  · intro o o' g g' hg hg' hgg
    rcases hcases hg with ⟨rfl, rfl⟩ | ⟨-, h1⟩ <;> rcases hcases hg' with ⟨rfl, rfl⟩ | ⟨-, h2⟩
    · rfl
    · exact absurd hgg.symm (hfresh o' g' h2)
    · exact absurd hgg (hfresh o g h1)
    · exact h.matching.inport_inj o o' g g' h1 h2 hgg
  · exact hall ⟨hbuf, htime, hport⟩ h.matching.packet
  · refine hall ⟨hviews.vnet, ?_⟩ h.matching.outvc
    rw [← h.idle ha hGa]
    exact hviews.free
  · exact hviews.now.trans h.removed.now
  · intro o g hg
    rw [hviews.flits, if_neg (by simp)]
    rcases hcases hg with ⟨rfl, rfl⟩ | ⟨-, hg⟩
    · rw [if_pos rfl]
    · rw [if_neg (fun hq => hlin hg (by injection hq))]
      exact h.removed.vc o g hg
  · intro i' hi' v' hnot
    rw [hviews.flits, if_neg (by simp), if_neg (fun hq => ?_)]
    · exact h.removed.vc_other i' hi' v' (fun o g hg => hnot o g (hold hg))
    · injection hq with hl hv
      exact hnot a w (update_self ..) (hnet.inLink_inj hi' hi hl).symm hv.symm
  · intro o g hg
    refine (hviews.credits _).trans ?_
    rcases hcases hg with ⟨rfl, rfl⟩ | ⟨-, hg⟩
    · rw [if_pos rfl, h.removed.now]
      exact (h.removed.credit_other _ hi hfresh).cons _
    · rw [if_neg (fun hq => hlin hg (by injection hq))]
      exact h.removed.credit o g hg
  · intro i' hi' hnot
    refine (hviews.credits _).trans ?_
    rw [if_neg (fun hq => ?_)]
    · exact h.removed.credit_other i' hi' (fun o g hg => hnot o g (hold hg))
    · injection hq with hl
      exact hnot a w (update_self ..) (hnet.inLink_inj hi' hi hl).symm
  · intro o g hg
    rw [hviews.flits]
    rcases hcases hg with ⟨rfl, rfl⟩ | ⟨-, hg⟩
    · rw [if_pos rfl, h.removed.now]
    · rw [if_neg (fun hq => hfresh o g hg (by injection hq)), if_neg (by simp)]
      exact h.removed.switch o g hg
  · intro i' hi' hnot
    rw [hviews.flits, if_neg (fun hq => ?_), if_neg (by simp)]
    · exact h.removed.switch_other i' hi' (fun o g hg => hnot o g (hold hg))
    · injection hq with _ hii
      exact hnot a w (update_self ..) hii.symm
  · intro l
    rw [hviews.flits, if_neg (by simp), if_neg (by simp)]
    exact h.removed.out l
  · exact hall hreq h.requested
  · intro o ho hnone x
    have hoa : o ≠ a := by
      rintro rfl
      rw [update_self] at hnone
      cases hnone
    rw [update_of_ne hoa] at hnone
    rw [hviews.outvc_other _ x (fun hl => hoa (hnet.outLink_inj ho ha hl))]
    exact h.outvc o ho hnone x

/-- Packets have one flit, an input virtual channel of the router holds at most one of them, and a
free output virtual channel has all its credits. -/
structure CreditState (net : GarnetNetwork) (r : ℕ) (s : NetState) : Prop where
  single : Single net s
  one : ∀ i < net.num_inports r, ∀ v < net.m_num_vcs, (s.flits (.vc (net.inLink r i) v)).length ≤ 1
  credit : ∀ o < net.num_outports r, ∀ w, (s.outvc (net.outLink r o) w).m_vc_state = .IDLE_ →
    (s.outvc (net.outLink r o) w).m_credit_count = net.max_credit_count w

/-- The same, and no packet has been left in the crossbar. -/
structure AllocatorState (net : GarnetNetwork) (r : ℕ) (s : NetState) : Prop
    extends CreditState net r s where
  crossbar : ∀ i < net.num_inports r, s.flits (.switch r i) = []

/-- One output port has its turn. It does not fail. -/
theorem SecondStage.step (hnet : Wired net) (hs : AllocatorState net r s)
    (hreq : ∀ i o v, requests i = some (o, v) → i < net.num_inports r ∧ Requested net s r i o v)
    (h : SecondStage net r requests s G s1) (ha : a < net.num_outports r) (hGa : G a = none) :
    Ok (fun s2 => ∃ G', (∀ o ≠ a, G' o = G o) ∧ SecondStage net r requests s G' s2)
      ⊥ (arbitrate_outport net r requests s1 a) := by
  unfold arbitrate_outport
  split
  · exact ⟨G, fun _ _ => rfl, h⟩
  rename_i i v hfind
  obtain ⟨hi, hrequested, hreqi⟩ : i < net.num_inports r ∧ Requested net s r i a v
      ∧ requests i = some (a, v) := by
    obtain ⟨k, -, hk⟩ := exists_of_findSome?_eq_some hfind
    obtain ⟨p, hp, hpo⟩ := Option.bind_eq_some_iff.mp hk
    split_ifs at hpo with hport
    rw [Option.some.injEq, Prod.mk.injEq] at hpo
    obtain ⟨rfl, rfl⟩ := hpo
    have hpk : requests k = some (a, p.2) := by rw [hp, ← hport]
    exact ⟨(hreq k a p.2 hpk).1, (hreq k a p.2 hpk).2, hpk⟩
  obtain ⟨f, rest, hbuf, htime, hport, -, hfree⟩ := hrequested.packet
  have hv : v < net.m_num_vcs := hrequested.1
  obtain rfl : rest = [] := by
    have hone := hs.one i hi v hv
    rw [hbuf, length_cons] at hone
    exact length_eq_zero_iff.mp (by omega)
  -- input port `i` and output port `a` are as they were in `s`
  have hfresh := h.fresh hGa hreqi
  have hbuf1 : s1.flits (.vc (net.inLink r i) v) = [f] := by
    rw [h.removed.vc_other i hi v (fun o g hg hgi => absurd hgi (hfresh o g hg)), hbuf]
  have hidle := h.idle ha hGa
  have hfree1 : OutputUnit.has_free_vc net s1 (net.outLink r a) (v / net.m_vcs_per_vnet) = true := by
    rw [← hfree, OutputUnit.has_free_vc, hidle]
    rfl
  have hcredit1 : ∀ w, is_vc_idle s1 (net.outLink r a) w = true →
      0 < (s1.outvc (net.outLink r a) w).m_credit_count := by
    intro w hw
    rw [hidle] at hw
    unfold is_vc_idle OutVcState.isInState at hw
    rw [Bool.and_eq_true, decide_eq_true_eq] at hw
    rw [h.outvc a ha hGa, hs.credit a ha w hw.1]
    exact lt_of_lt_of_le Int.one_pos (net.max_credit_count_pos w)
  refine (grant_spec h.single r a i v).mono (fun s2 hG => ?_)
    (fun _ hno => hno f ⟨hv, hbuf1, hport, hfree1, hcredit1⟩)
  obtain ⟨outvc, hviews⟩ := hG.views hbuf1 (h.removed.switch_other i hi hfresh)
  refine ⟨_, fun o hoa => update_of_ne hoa (some ⟨i, v, outvc, f⟩) G, ?_⟩
  exact h.grant hnet ha hGa hi hreqi rfl rfl hbuf htime hport (hG.single h.single) hviews

/-- **The second stage computes a matching and does not fail.** -/
theorem arbitrate_outports_matching (hnet : Wired net) (hs : AllocatorState net r s)
    (hs1 : s1.flits = s.flits ∧ s1.credits = s.credits ∧ s1.outvc = s.outvc ∧ s1.now = s.now
      ∧ Single net s1)
    (hreq : ∀ i o v, requests i = some (o, v) → i < net.num_inports r ∧ Requested net s r i o v) :
    Ok (fun s2 => ∃ G, SecondStage net r requests s G s2) ⊥
      (arbitrate_outports net s1 r requests) := by
  have hloop := Ok.foldlM (E := fun _ => False) (f := arbitrate_outport net r requests)
    (fun l s2 => l.Nodup ∧ (∀ o ∈ l, o < net.num_outports r)
      ∧ ∃ G, (∀ o ∈ l, G o = none) ∧ SecondStage net r requests s G s2)
    (range (net.num_outports r)) s1 ?_ ?_
  · exact hloop.imp (fun s2 h => ⟨h.2.2.choose, h.2.2.choose_spec.2⟩)
  · refine ⟨nodup_range, fun o ho => mem_range.mp ho, fun _ => none, fun _ _ => rfl, ?_⟩
    obtain ⟨hflits, hcredits, houtvc, hnow, hsingle⟩ := hs1
    refine ⟨.empty, ⟨hnow, ?_, ?_, ?_, ?_, ?_, ?_, ?_⟩, hsingle, ?_, ?_⟩
    · exact fun _ _ hg => nomatch hg
    · exact fun i _ v _ => congrFun hflits _
    · exact fun _ _ hg => nomatch hg
    · exact fun i _ _ => by rw [hcredits]
    · exact fun _ _ hg => nomatch hg
    · exact fun i hi _ => by rw [hflits, hs.crossbar i hi]
    · exact fun l => congrFun hflits _
    · exact fun _ _ hg => nomatch hg
    · exact fun o _ _ w => by rw [houtvc]
  · rintro a rest s2 ⟨hnodup, hlt, G, hnone, hG⟩
    rw [nodup_cons] at hnodup
    refine (hG.step hnet hs hreq (hlt a mem_cons_self) (hnone a mem_cons_self)).imp ?_
    rintro s3 ⟨G', hsame, hG'⟩
    refine ⟨hnodup.2, fun o ho => hlt o (mem_cons_of_mem a ho), G', fun o ho => ?_, hG'⟩
    rw [hsame o (fun hoa => hnodup.1 (hoa ▸ ho))]
    exact hnone o (mem_cons_of_mem a ho)

end SecondStage

/-! ## The crossbar -/

section Crossbar

variable [StdHeap] {net : GarnetNetwork} {s s1 s2 : NetState} {r i : ℕ} {f : flit}

theorem traverse_of_empty (h : s.flits (.switch r i) = []) :
    CrossbarSwitch.traverse net r s i = .ok s := by
  have hready : (s.m_switch_buffer r i).isReady s.now = false := by
    unfold flitBuffer.isReady
    rw [show (s.m_switch_buffer r i).m_buffer = [] from h]
  unfold CrossbarSwitch.traverse
  simp only [hready, Bool.false_eq_true, if_false]
  rfl

theorem traverse_of_single (h : s.flits (.switch r i) = [f]) (htime : f.m_time ≤ s.now)
    (hstage : f.is_stage .ST_ s.now = true) :
    Ok (fun s' => s'.now = s.now ∧ s'.credits = s.credits
        ∧ (s'.flits (.outBuffer (net.outLink r f.m_outport.toNat))).Perm
          (crossed s.now f :: s.flits (.outBuffer (net.outLink r f.m_outport.toNat)))
        ∧ s'.flits (.switch r i) = []
        ∧ ∀ q, q ≠ .outBuffer (net.outLink r f.m_outport.toNat) → q ≠ .switch r i →
          s'.flits q = s.flits q)
      ⊥ (CrossbarSwitch.traverse net r s i) := by
  refine (CrossbarSwitch.traverse_spec r i).imp ?_
  rintro s' (⟨-, hno⟩ | ⟨f', b, lout, top, ready, stage, rfl, same, wakes⟩)
  · exact absurd hstage (hno f h htime)
  obtain ⟨rfl, hb⟩ := flitBuffer.top_of_single h top
  refine ⟨?_, ?_, ?_, ?_, fun q hq hq' => ?_⟩
  · rw [same.now]
    simp
  · rw [same.credits, credits_setFlits, credits_setFlits]
  · rw [same.flits, flits_setFlits, if_pos rfl]
    exact flitBuffer.insert_perm _ _
  · rw [same.flits, flits_setFlits, if_neg (by simp), flits_setFlits, if_pos rfl, hb]
  · rw [same.flits, flits_setFlits, if_neg hq, flits_setFlits, if_neg hq']

variable {G : ℕ → Option Winner}

/-- The state after the crossbar. The packets of `G` are in the buffers of their output ports, one
credit has been sent for each of them, and nothing else has moved. -/
structure Switched (net : GarnetNetwork) (r : ℕ) (s : NetState) (G : ℕ → Option Winner)
    (s' : NetState) : Prop where
  vc : ∀ o g, G o = some g → s'.flits (.vc (net.inLink r g.inport) g.invc) = []
  vc_other : ∀ i < net.num_inports r, ∀ v, (∀ o g, G o = some g → g.inport = i → g.invc ≠ v) →
    s'.flits (.vc (net.inLink r i) v) = s.flits (.vc (net.inLink r i) v)
  credit : ∀ o g, G o = some g → (s'.credits (.queue (net.inLink r g.inport))).Perm
    (⟨g.invc, true, s.now⟩ :: s.credits (.queue (net.inLink r g.inport)))
  credit_other : ∀ i < net.num_inports r, (∀ o g, G o = some g → g.inport ≠ i) →
    (s'.credits (.queue (net.inLink r i))).Perm (s.credits (.queue (net.inLink r i)))
  out : ∀ o g, G o = some g → (s'.flits (.outBuffer (net.outLink r o))).Perm
    (crossed s.now (granted net r o g.outvc s.now g.packet)
      :: s.flits (.outBuffer (net.outLink r o)))
  out_other : ∀ o < net.num_outports r, G o = none →
    s'.flits (.outBuffer (net.outLink r o)) = s.flits (.outBuffer (net.outLink r o))
  crossbar : ∀ i < net.num_inports r, s'.flits (.switch r i) = []

/-- The crossbar when the input ports in `l` have not had their turn. -/
structure Crossing (net : GarnetNetwork) (r : ℕ) (s : NetState) (G : ℕ → Option Winner)
    (s1 : NetState) (l : List ℕ) (s' : NetState) : Prop where
  now : s'.now = s.now
  credits : s'.credits = s1.credits
  vc : ∀ k v, s'.flits (.vc k v) = s1.flits (.vc k v)
  todo : ∀ i ∈ l, s'.flits (.switch r i) = s1.flits (.switch r i)
  done : ∀ i < net.num_inports r, i ∉ l → s'.flits (.switch r i) = []
  out : ∀ o g, G o = some g → (s'.flits (.outBuffer (net.outLink r o))).Perm
    (if g.inport ∈ l then s.flits (.outBuffer (net.outLink r o))
      else crossed s.now (granted net r o g.outvc s.now g.packet)
        :: s.flits (.outBuffer (net.outLink r o)))
  out_other : ∀ o < net.num_outports r, G o = none →
    s'.flits (.outBuffer (net.outLink r o)) = s.flits (.outBuffer (net.outLink r o))
  nodup : l.Nodup
  inports : ∀ i ∈ l, i < net.num_inports r

theorem Crossing.step (hnet : Wired net) (hG : Matching net r s G) (hs1 : Removed net r s G s1)
    {a : ℕ} {l : List ℕ} (h : Crossing net r s G s1 (a :: l) s2) :
    Ok (Crossing net r s G s1 l) ⊥ (CrossbarSwitch.traverse net r s2 a) := by
  obtain ⟨hal, hnodup⟩ := nodup_cons.mp h.nodup
  have hrest : ∀ i ∈ l, i ≠ a := fun i hi hia => hal (hia ▸ hi)
  have hswitch := h.todo a mem_cons_self
  by_cases hgrant : ∃ o g, G o = some g ∧ g.inport = a
  · obtain ⟨o, g, hg, rfl⟩ := hgrant
    rw [hs1.switch o g hg] at hswitch
    have hport : (granted net r o g.outvc s.now g.packet).m_outport.toNat = o := rfl
    refine (traverse_of_single hswitch ?_ ?_).imp (fun s3 h3 => ?_)
    · rw [h.now]
      exact (hG.packet o g hg).2.1
    · rw [h.now]
      exact decide_eq_true ⟨rfl, le_rfl⟩
    rw [hport, h.now] at h3
    obtain ⟨hnow, hcredits, hout, hgone, hother⟩ := h3
    refine ⟨hnow, hcredits.trans h.credits, fun k v => ?_, fun i hi => ?_, fun i hi hil => ?_,
      fun o' g' hg' => ?_, fun o' ho' hnone => ?_, hnodup, fun i hi =>
      h.inports i (mem_cons_of_mem _ hi)⟩
    · rw [hother _ (by simp) (by simp)]
      exact h.vc k v
    · rw [hother _ (by simp) (by simpa using hrest i hi)]
      exact h.todo i (mem_cons_of_mem _ hi)
    · by_cases hia : i = g.inport
      · rw [hia]
        exact hgone
      · rw [hother _ (by simp) (by simpa using hia)]
        exact h.done i hi (by simp [hia, hil])
    · by_cases hoo : o' = o
      · subst hoo
        obtain rfl : g = g' := Option.some.inj (hg.symm.trans hg')
        rw [if_neg hal]
        refine hout.trans (Perm.cons _ ?_)
        have hold := h.out o' g hg
        rw [if_pos mem_cons_self] at hold
        exact hold
      · have hlink : net.outLink r o' ≠ net.outLink r o := fun hl =>
          hoo (hnet.outLink_inj (hG.outport o' g' hg') (hG.outport o g hg) hl)
        have hin : g'.inport ≠ g.inport := fun hi => hoo (hG.inport_inj o' o g' g hg' hg hi)
        rw [hother _ (by simpa using hlink) (by simp)]
        have hold := h.out o' g' hg'
        simp only [mem_cons, hin, false_or] at hold
        exact hold
    · have hoo : o' ≠ o := by
        rintro rfl
        rw [hg] at hnone
        cases hnone
      have hlink : net.outLink r o' ≠ net.outLink r o := fun hl =>
        hoo (hnet.outLink_inj ho' (hG.outport o g hg) hl)
      rw [hother _ (by simpa using hlink) (by simp)]
      exact h.out_other o' ho' hnone
  · -- nothing of this input port was granted
    have hnot : ∀ o g, G o = some g → g.inport ≠ a := fun o g hg hga => hgrant ⟨o, g, hg, hga⟩
    rw [hs1.switch_other a (h.inports a mem_cons_self) hnot] at hswitch
    rw [traverse_of_empty hswitch]
    refine ⟨h.now, h.credits, h.vc, fun i hi => h.todo i (mem_cons_of_mem _ hi),
      fun i hi hil => ?_, fun o g hg => ?_, h.out_other, hnodup, fun i hi =>
      h.inports i (mem_cons_of_mem _ hi)⟩
    · by_cases hia : i = a
      · rw [hia]
        exact hswitch
      · exact h.done i hi (by simp [hia, hil])
    · have hold := h.out o g hg
      simp only [mem_cons, hnot o g hg, false_or] at hold
      exact hold

/-- **The crossbar empties itself.** -/
theorem crossbar_switched (hnet : Wired net) (hG : Matching net r s G)
    (hs1 : Removed net r s G s1) :
    Ok (Switched net r s G) ⊥ (CrossbarSwitch.wakeup net s1 r) := by
  refine (Ok.foldlM (fun l s2 => Crossing net r s G s1 l s2) _ s1 ?_
    (fun a l s2 h => h.step hnet hG hs1)).imp (fun s2 h => ?_)
  · refine ⟨hs1.now, rfl, fun _ _ => rfl, fun _ _ => rfl, fun i hi hil => ?_, fun o g hg => ?_,
      fun o _ _ => hs1.out _, nodup_range, fun i hi => mem_range.mp hi⟩
    · exact absurd (mem_range.mpr hi) hil
    · rw [if_pos (mem_range.mpr (hG.inport o g hg)), hs1.out]
  · refine ⟨fun o g hg => ?_, fun i hi v hnot => ?_, fun o g hg => ?_, fun i hi hnot => ?_,
      fun o g hg => ?_, h.out_other, fun i hi => h.done i hi (by simp)⟩
    · rw [h.vc]
      exact hs1.vc o g hg
    · rw [h.vc]
      exact hs1.vc_other i hi v hnot
    · rw [h.credits]
      exact hs1.credit o g hg
    · rw [h.credits]
      exact hs1.credit_other i hi hnot
    · have hout := h.out o g hg
      rw [if_neg (by simp)] at hout
      exact hout

end Crossbar

/-! ## The whole switch -/

section Switch

variable [StdHeap] {net : GarnetNetwork} {s : NetState} {r : ℕ} {M : RequestMatrix}

omit [StdHeap] in
theorem check_for_wakeup_faults (s : NetState) (r : ℕ) :
    Ok (Quiet s) FirstStageFault (check_for_wakeup net s r) := by
  unfold check_for_wakeup
  refine (firstM_ok (fun ij _ => (need_stage_faults s _ ij.2 .SA_ (s.now + 1)).imp
    (fun _ _ => trivial))).bind (fun ready _ => ?_)
  split
  · exact Quiet.schedule s _ _
  · exact Quiet.refl s

theorem allocator_removed (hnet : Wired net) (hs : AllocatorState net r s) :
    Ok (fun s' => ∃ G, Matching net r s G ∧ Removed net r s G s') FirstStageFault
      (SwitchAllocator.wakeup net s r) := by
  unfold SwitchAllocator.wakeup
  cases h1 : SwitchAllocator.arbitrate_inports net s r with
  | error e => exact (SwitchAllocator.arbitrate_inports_faults s r).elim_error h1
  | ok x =>
    obtain ⟨⟨g, hg⟩, hreq⟩ := (arbitrate_inports_spec r).elim h1
    obtain ⟨s1, requests⟩ := x
    dsimp only at hg hreq
    rw [ok_bind]
    have hsingle : Single net s1 := by
      rw [hg]
      exact ⟨hs.single.flits, hs.single.credits, hs.single.output_vc, hs.single.allocator⟩
    refine ((arbitrate_outports_matching hnet hs (by rw [hg]; exact ⟨rfl, rfl, rfl, rfl, hg ▸
      hsingle⟩) hreq).mono (fun _ h => h) (fun _ h => h.elim)).bind ?_
    rintro s2 ⟨G, hG⟩
    refine (check_for_wakeup_faults s2 r).imp (fun s3 hq => ⟨G, hG.matching, ?_⟩)
    have h := hG.removed
    exact ⟨hq.now.trans h.now, by rw [hq.flits]; exact h.vc, by rw [hq.flits]; exact h.vc_other,
      by rw [hq.credits]; exact h.credit, by rw [hq.credits]; exact h.credit_other,
      by rw [hq.flits]; exact h.switch, by rw [hq.flits]; exact h.switch_other,
      by rw [hq.flits]; exact h.out⟩

/-- **Switch allocation computes a valid matching.** One wakeup of the allocator, with its request
matrix, and of the crossbar. It can only stop in the first stage, so neither the assertion in
`vc_allocate` nor the one that the input virtual channel is empty fails. -/
theorem switch_allocation_matching (hnet : Wired net) (hs : AllocatorState net r s)
    (hM : M.Clear net r) :
    Ok (fun y : NetState × RequestMatrix => y.2.Clear net r
        ∧ ∃ G, Matching net r s G ∧ Switched net r s G y.1)
      FirstStageFault
      (do
        let (s, M) ← RequestMatrix.wakeup net r (s, M)
        let s ← CrossbarSwitch.wakeup net s r
        pure (s, M)) := by
  refine ((RequestMatrix.wakeup_sim hM).ok (allocator_removed hnet hs)).bind ?_
  rintro ⟨s1, M1⟩ ⟨s1', ⟨G, hG, hremoved⟩, rfl, hclear⟩
  refine ((crossbar_switched hnet hG hremoved).mono (fun _ h => h) (fun _ h => h.elim)).bind ?_
  exact fun s2 hswitched => ⟨hclear, G, hG, hswitched⟩

/-- **The crossbar is empty between wakeups.** It is so along a run if it is so at the beginning
and every round starts with at most one flit in a virtual channel and the credits in order. -/
theorem Rounds.crossbar_empty (hnet : Wired net) {s' : NetState} {L : List NetState}
    (h : Rounds net r s L s') (hstart : ∀ i < net.num_inports r, s.flits (.switch r i) = [])
    (hL : ∀ sa ∈ L, CreditState net r sa) :
    ∀ i < net.num_inports r, s'.flits (.switch r i) = [] := by
  induction h with
  | start => exact hstart
  | other L s1 s2 _ hother ih =>
    intro i hi
    change (s2.m_switch_buffer r i).m_buffer = []
    rw [hother.untouched.buffer r rfl]
    exact ih hL i hi
  | round L s1 sa s2 _ hsa hwake ih =>
    have hrest := ih (fun x hx => hL x (mem_append_left _ hx))
    have hcredit := hL sa (mem_append_right L (mem_singleton.mpr rfl))
    have hcrossbar : ∀ i < net.num_inports r, sa.flits (.switch r i) = [] := by
      have hbuffer : sa.m_switch_buffer = s1.m_switch_buffer :=
        congrArg (·.2.1) ((keeps_beforeSwitch s1 r).elim hsa)
      intro i hi
      change (sa.m_switch_buffer r i).m_buffer = []
      rw [hbuffer]
      exact hrest i hi
    rw [Router.wakeup_eq, hsa, ok_bind] at hwake
    obtain ⟨sw, hsw, hcross⟩ := bind_eq_ok.mp hwake
    obtain ⟨G, hG, hremoved⟩ := (allocator_removed hnet ⟨hcredit, hcrossbar⟩).elim hsw
    exact ((crossbar_switched hnet hG hremoved).elim hcross).crossbar

end Switch

/-! ## Two packets for one output port -/

theorem GarnetNetwork.init_single (net : GarnetNetwork)
    (inNode outNode : ℕ → ℕ → Option MessageBuffer) (rng : List ℕ) :
    Single net (net.init inNode outNode rng) where
  flits p f hf := by cases p <;> cases hf
  credits p c hc := by cases p <;> cases hc
  output_vc _ _ := rfl
  allocator _ _ := net.vcs_pos

theorem InputUnit.outvc_setVc (s : NetState) (l v : ℕ) (x : VirtualChannel) :
    (setVc s l v x).outvc = s.outvc := s.outvc_setChan rfl

theorem Single.setVc {net : GarnetNetwork} {s : NetState} (hs : Single net s) (l v : ℕ)
    {x : VirtualChannel} (hx : x.m_output_vc = -1)
    (hflits : ∀ f ∈ x.m_input_buffer.m_buffer, f.m_type = .HEAD_TAIL_) :
    Single net (InputUnit.setVc s l v x) := by
  have hstate : InputUnit.setVc s l v x = (s.setFlits (.vc l v) x.m_input_buffer.m_buffer).setVcInfo
      l v x := by
    simp [InputUnit.setVc, setFlits, setVcInfo, setChan, Channel.modVc]
  rw [hstate]
  refine ⟨fun p f hf => ?_, fun p c hc => ?_, fun l' v' => ?_, fun n vnet => ?_⟩
  · rw [flits_setVcInfo, flits_setFlits] at hf
    split_ifs at hf
    · exact hflits f hf
    · exact hs.flits p f hf
  · rw [credits_setVcInfo, credits_setFlits] at hc
    exact hs.credits p c hc
  · rw [vcInfo_setVcInfo]
    split_ifs
    · exact hx
    · rw [vcInfo_setFlits]
      exact hs.output_vc l' v'
  · simpa using hs.allocator n vnet

/-- Both input ports of `contended` ask for output port 0, and one of them gets it. -/
theorem switch_allocation_matching_contended :
    AllocatorState pairNet 0 contended
      ∧ @Ok Fault (NetState × RequestMatrix) (fun y => y.2.Clear pairNet 0
        ∧ ∃ G, Matching pairNet 0 contended G ∧ Switched pairNet 0 contended G y.1)
      FirstStageFault
      (do
        let (s, M) ← @RequestMatrix.wakeup pairNet sortedHeap 0
          (contended, ⟨fun _ _ => false, fun _ _ => 0⟩)
        let s ← @CrossbarSwitch.wakeup sortedHeap pairNet s 0
        pure (s, M)) := by
  let _ : StdHeap := sortedHeap
  have hs : AllocatorState pairNet 0 contended := by
    refine ⟨⟨?_, by decide +kernel, fun o _ w _ => ?_⟩, fun _ _ => rfl⟩
    · exact ((pairNet.init_single _ _ _).setVc _ _ rfl (by decide)).setVc _ _ rfl (by decide)
    · have houtvc : contended.outvc = (pairNet.init (fun _ _ => none) (fun _ _ => none) []).outvc :=
        (outvc_setVc ..).trans (outvc_setVc ..)
      rw [houtvc]
      rfl
  exact ⟨hs, switch_allocation_matching (Topology.network_wired _ _ _) hs (fun _ _ _ _ => rfl)⟩

end Bindu.Garnet
