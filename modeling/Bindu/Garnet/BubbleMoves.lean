/-
Bubbles move without losing anything.

A bubble changes places with another virtual channel 0. If that one is free, the credit withheld
for the bubble is given back upstream of its old place and another is taken upstream of the new one.
If it holds a packet, the packet goes where the bubble was. So however the bubbles move, the packets
in the virtual channels 0 are only shuffled, as many credits are left for these channels, and no
other flit or credit of the network is touched.

Source: `garnet2.0/GarnetNetwork.cc`.
-/
import Bindu.Garnet.Frames
import Bindu.Garnet.MeshRouting
import Bindu.Lib.Runs

open Bindu.Lib Keeps

namespace Bindu.Garnet

open InputUnit NetState

/-- A flit but for what a move between routers sets anew. -/
def flit.packet (f : flit) : flit :=
  { f with m_outport := -1, m_outport_dirn := .Unknown, m_time := 0 }

/-- The numbers of the links, and `noLink`. -/
def GarnetNetwork.links (net : GarnetNetwork) : Finset ℕ := Finset.range (net.noLink + 1)

/-- The packets in the virtual channels 0 of all input units. -/
def NetState.packets (s : NetState) (net : GarnetNetwork) : Multiset flit :=
  ∑ l ∈ net.links, ↑((s.flits (.vc l 0)).map flit.packet)

/-- The credits that all output units have left for virtual channel 0. -/
def NetState.creditsLeft (s : NetState) (net : GarnetNetwork) : ℤ :=
  ∑ l ∈ net.links, (s.outvc l 0).m_credit_count

/-- The packets in the virtual channels 0 are shuffled, `d` credits for these channels have come
back, and all other flits and credits are where they were. -/
structure Shuffled (net : GarnetNetwork) (d : ℤ) (s s' : NetState) : Prop where
  packets : s'.packets net = s.packets net
  creditsLeft : s'.creditsLeft net = s.creditsLeft net + d
  flits : ∀ p, (∀ l, p ≠ .vc l 0) → s'.flits p = s.flits p
  credits : s'.credits = s.credits
  outvc : ∀ l v, v ≠ 0 → s'.outvc l v = s.outvc l v

variable {net : GarnetNetwork} {s s' : NetState} {d e : ℤ}

theorem Shuffled.trans {s'' : NetState} (h : Shuffled net d s s') (h' : Shuffled net e s' s'') :
    Shuffled net (d + e) s s'' where
  packets := h'.packets.trans h.packets
  creditsLeft := by rw [h'.creditsLeft, h.creditsLeft, add_assoc]
  flits p hp := (h'.flits p hp).trans (h.flits p hp)
  credits := h'.credits.trans h.credits
  outvc l v hv := (h'.outvc l v hv).trans (h.outvc l v hv)

/-- A change that none of this can see. -/
theorem Shuffled.of_eq (hflits : s'.flits = s.flits) (hcredits : s'.credits = s.credits)
    (houtvc : s'.outvc = s.outvc) : Shuffled net 0 s s' where
  packets := by rw [NetState.packets, NetState.packets, hflits]
  creditsLeft := by rw [NetState.creditsLeft, NetState.creditsLeft, houtvc, add_zero]
  flits p _ := congrFun hflits p
  credits := hcredits
  outvc l v _ := congrFun (congrFun houtvc l) v

instance : Std.Refl (Shuffled net 0) := ⟨fun _ => .of_eq rfl rfl rfl⟩

instance : IsTrans NetState (Shuffled net 0) := ⟨fun _ _ _ h h' => add_zero (0 : ℤ) ▸ h.trans h'⟩

/-- A sum in which one summand has changed. -/
theorem sum_change {M : Type} [AddCommMonoid M] {ls : Finset ℕ} {f g : ℕ → M} {l : ℕ}
    (hl : l ∈ ls) (h : ∀ k ≠ l, g k = f k) : ∑ k ∈ ls, g k + f l = ∑ k ∈ ls, f k + g l := by
  rw [← Finset.add_sum_erase ls g hl, ← Finset.add_sum_erase ls f hl,
    Finset.sum_congr rfl (fun k hk => h k (Finset.ne_of_mem_erase hk))]
  abel

/-! ## Credits -/

theorem Shuffled.setOutvc {up : ℕ} {o : OutVcState} (hup : up ∈ net.links)
    (ho : o.m_credit_count = (s.outvc up 0).m_credit_count + d) :
    Shuffled net d s (s.setOutvc up 0 o) where
  packets := by rw [NetState.packets, flits_setOutvc]; rfl
  creditsLeft := by
    have hsum := sum_change (f := fun l => (s.outvc l 0).m_credit_count)
      (g := fun l => ((s.setOutvc up 0 o).outvc l 0).m_credit_count) hup
      (fun k hk => by simp [hk])
    rw [outvc_setOutvc, if_pos ⟨rfl, rfl⟩, ho] at hsum
    unfold NetState.creditsLeft
    omega
  flits p _ := by rw [flits_setOutvc]
  credits := credits_setOutvc ..
  outvc k v hv := by rw [outvc_setOutvc, if_neg (fun h => hv h.2)]

/-- The state of an output virtual channel and that of an input virtual channel are set. -/
theorem Shuffled.mark {s1 s2 : NetState} {up l : ℕ} {state : VC_state_type} {v : VirtualChannel}
    (h : Shuffled net d s s1) (hup : up ∈ net.links)
    (h2 : s2 = (OutputUnit.set_vc_state s1 state up 0).setVcInfo l 0 v) : Shuffled net d s s2 := by
  have hstate : Shuffled net 0 s1 (OutputUnit.set_vc_state s1 state up 0) :=
    .setOutvc hup (add_zero _).symm
  have hinfo : Shuffled net 0 (OutputUnit.set_vc_state s1 state up 0) s2 :=
    h2 ▸ .of_eq (flits_setVcInfo ..) (credits_setVcInfo ..) (outvc_setVcInfo ..)
  simpa using (h.trans hstate).trans hinfo

variable {up : ℕ} (l : ℕ)

theorem reserve_shuffled (hup : up ∈ net.links) : Ok (Shuffled net (-1) s) ⊤ (reserve s up l) := by
  unfold reserve OutputUnit.decrement_credit OutVcState.decrement_credit
  simp only [bind_assoc, pure_bind]
  exact Ok.skip (fun _ => (Shuffled.setOutvc hup rfl).mark hup
    (v := (vcAt _ l 0).set_active _) rfl)

theorem release_shuffled (hup : up ∈ net.links) : Ok (Shuffled net 1 s) ⊤ (release s up l) := by
  unfold release OutputUnit.increment_credit OutVcState.increment_credit
  simp only [bind_assoc, pure_bind]
  exact Ok.skip (fun _ => (Shuffled.setOutvc hup rfl).mark hup (v := (vcAt s l 0).set_idle _) rfl)

/-! ## Packets -/

theorem packets_setFlits {l : ℕ} (hl : l ∈ net.links) (L : List flit) :
    (s.setFlits (.vc l 0) L).packets net + ↑((s.flits (.vc l 0)).map flit.packet)
      = s.packets net + ↑(L.map flit.packet) := by
  have hsum := sum_change (f := fun k => (↑((s.flits (.vc k 0)).map flit.packet) : Multiset flit))
    (g := fun k => ↑(((s.setFlits (.vc l 0) L).flits (.vc k 0)).map flit.packet)) hl
    (fun k hk => by simp [hk])
  rw [flits_setFlits, if_pos rfl] at hsum
  exact hsum

/-- A packet changes places with a bubble. -/
theorem Shuffled.swap [StdHeap] {s1 : NetState} {l l' : ℕ} {f f' : flit}
    (hl : l ∈ net.links) (hl' : l' ∈ net.links) (htop : getTopFlit s l 0 = .ok (f, s1))
    (hf : f'.packet = f.packet) :
    Shuffled net 0 s (insertFlit s1 l' 0 f') := by
  obtain ⟨b, hb, rfl⟩ := (getTopFlit_spec l 0).elim htop
  have hget := packets_setFlits (s := s) hl b.m_buffer
  have hput := packets_setFlits (s := s.setFlits (.vc l 0) b.m_buffer) hl'
    ((vcAt (s.setFlits (.vc l 0) b.m_buffer) l' 0).m_input_buffer.insert f').m_buffer
  have hfrom : (s.flits (.vc l 0)).Perm (f :: b.m_buffer) := flitBuffer.getTopFlit_perm hb
  have hto := flitBuffer.insert_perm
    (vcAt (s.setFlits (.vc l 0) b.m_buffer) l' 0).m_input_buffer f'
  rw [Multiset.coe_eq_coe.mpr (hfrom.map flit.packet), List.map_cons, ← Multiset.cons_coe,
    Multiset.add_cons, ← Multiset.cons_add] at hget
  rw [Multiset.coe_eq_coe.mpr (hto.map flit.packet), List.map_cons, hf, ← Multiset.cons_coe,
    Multiset.add_cons, ← Multiset.cons_add] at hput
  change Shuffled net 0 s ((s.setFlits (.vc l 0) b.m_buffer).setFlits (.vc l' 0) _)
  refine ⟨(add_right_cancel hput).trans (add_right_cancel hget), ?_, fun p hp => ?_, ?_, ?_⟩
  · rw [NetState.creditsLeft, outvc_setFlits, outvc_setFlits, add_zero]
    rfl
  · rw [flits_setFlits, if_neg (hp l'), flits_setFlits, if_neg (hp l)]
  · rw [credits_setFlits, credits_setFlits]
  · intro k v _
    rw [outvc_setFlits, outvc_setFlits]

/-! ## Moves -/

theorem mem_of_consumer {g : NetworkLink → Endpoint} {x : Endpoint} {l : ℕ}
    (h : net.m_networklinks[l]?.map g = some x) : l ∈ net.links := by
  obtain ⟨k, hk, -⟩ := Option.map_eq_some_iff.mp h
  exact Finset.mem_range_succ_iff.mpr (List.getElem?_eq_some_iff.mp hk).1.le

namespace Wired

variable (hnet : Wired net)

include hnet

theorem inLink_mem (r inport : ℕ) : net.inLink r inport ∈ net.links := by
  unfold GarnetNetwork.inLink
  split
  case h_1 q hq => exact mem_of_consumer (hnet.inport _ _ q hq).2
  case h_2 => exact Finset.self_mem_range_succ _

theorem upstream_mem {src : ℤ} {r up : ℕ} (h : upstream_op net src r = .ok up) :
    up ∈ net.links := by
  unfold upstream_op at h
  split_ifs at h
  · split at h
    case h_1 q hq =>
      obtain ⟨o, ho⟩ := List.mem_iff_getElem?.mp (List.mem_of_find?_eq_some hq)
      exact Except.ok.inj h ▸ mem_of_consumer (hnet.outport _ o q ho).2
    case h_2 => cases h

theorem moves [StdHeap] : AllowsMoves net (Shuffled net 0) where
  other _ _ _ _ _ _ := .of_eq rfl rfl rfl
  exchange s r inport b _ _ _ _ _ _ hup horig := by
    refine (reserve_shuffled _ (hnet.upstream_mem hup)).bind (fun s1 h1 => ?_)
    refine (release_shuffled _ (hnet.upstream_mem horig)).imp (fun s2 h2 => ?_)
    exact neg_add_cancel (1 : ℤ) ▸ h1.trans h2
  swap _ _ _ _ _ htop := .swap (hnet.inLink_mem ..) (hnet.inLink_mem ..) htop rfl

end Wired

/-- A move of one bubble, or of all of them in a wakeup of a router. -/
inductive BubbleStep [StdHeap] (net : GarnetNetwork) (s s' : NetState) : Prop
  | intra (id : ℕ) (moved : Bool) (h : move_intra_bubble net s id = .ok (moved, s'))
  | inter (id : ℕ) (moved : Bool) (h : move_inter_bubble net s id = .ok (moved, s'))
  | inter_cbs (id : ℕ) (moved : Bool) (h : move_inter_bubble_cbs net s id = .ok (moved, s'))
  | intra_all (h : Router.move_intra_bubbles net s = .ok s')
  | inter_all (h : Router.move_inter_bubbles net s = .ok s')

theorem BubbleStep.shuffled [StdHeap] (hnet : Wired net) (h : BubbleStep net s s') :
    Shuffled net 0 s s' := by
  cases h with
  | intra id moved h => exact (hnet.moves.move_intra_bubble s id).elim h
  | inter id moved h => exact (hnet.moves.move_inter_bubble s id).elim h
  | inter_cbs id moved h => exact (hnet.moves.move_inter_bubble_cbs s id).elim h
  | intra_all h => exact (hnet.moves.move_intra_bubbles s).elim h
  | inter_all h => exact (hnet.moves.move_inter_bubbles s).elim h

/-- **Bubbles lose nothing**, in any number of moves and whatever `random()` returns. -/
theorem bubbles_lose_nothing [StdHeap] (hnet : Wired net)
    (h : Relation.ReflTransGen (BubbleStep net) s s') : Shuffled net 0 s s' :=
  reflTransGen_keeps (fun _ _ hs hstep => IsTrans.trans _ _ _ hs (hstep.shuffled hnet))
    (Std.Refl.refl s) h

/-- A bubble in input port 1 of router 0. -/
def oneBubble : NetState :=
  { (twoByTwoNet.init (fun _ _ => none) (fun _ _ => none) [1]).setOutvc 8 0 ⟨0, .ACTIVE_, 0, 1⟩ with
    bubble := [{ brownian_bubble.zero with inport_id := 1 }]
    now := 100 }

/-- It moves to router 1. -/
theorem bubbles_lose_nothing_twoByTwo : ∃ s',
    @move_inter_bubble twoByTwoNet sortedHeap oneBubble 0 = .ok (true, s')
      ∧ Shuffled twoByTwoNet 0 oneBubble s' := by
  let _ : StdHeap := sortedHeap
  obtain ⟨⟨moved, s'⟩, hok, hmoved⟩ := exists_ok_of_any (show (move_inter_bubble twoByTwoNet
    oneBubble 0).toOption.any Prod.fst = true by decide +kernel)
  obtain rfl : moved = true := hmoved
  exact ⟨s', hok, bubbles_lose_nothing (Topology.network_wired ..) (.single (.inter 0 true hok))⟩

end Bindu.Garnet
