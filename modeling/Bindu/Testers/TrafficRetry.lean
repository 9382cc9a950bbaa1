/-
The packets of the injector.

A packet that the port turns away waits in `retryPkt`, which has room for one. `tick` does not
look at it, so the next packet that is turned away takes its place. That is the only way to lose a
packet: in a run where it does not happen every packet was taken once or is the one that waits,
and the port never asks for a packet when there is none. The other direction holds as well, so the
condition is exact.
-/
import Bindu.Testers.SyntheticTraffic

open Bindu.Lib List

namespace Bindu.Testers

/-! ## What a step does to the packets -/

/-- The part of the state that is about packets. -/
structure Packets where
  retryPkt : Option Packet
  generated : List Packet
  accepted : List Packet
  owed : ℕ
  deriving DecidableEq

def Injector.packets (s : Injector) : Packets := ⟨s.retryPkt, s.generated, s.accepted, s.owed⟩

namespace Packets

/-- A new packet that the port takes, or turns away. -/
def offer (q : Packets) (pkt : Packet) (answer : Bool) : Packets :=
  if answer then { q with generated := q.generated ++ [pkt], accepted := q.accepted ++ [pkt] }
  else { q with generated := q.generated ++ [pkt], retryPkt := some pkt, owed := q.owed + 1 }

/-- The packet that waits, when the port asks for it and then owes `rest` requests. -/
def retry (q : Packets) (rest : ℕ) (pkt : Packet) (answer : Bool) : Packets :=
  if answer then { q with accepted := q.accepted ++ [pkt], retryPkt := none, owed := rest }
  else { q with owed := rest + 1 }

end Packets

variable {P : Params} {s s' : Injector} {i : TickInput}

theorem packets_scheduleWakeup (h : s.scheduleWakeup P i = .ok s') : s'.packets = s.packets := by
  unfold Injector.scheduleWakeup at h
  split_ifs at h
  -- three of the branches return, and each sets one flag
  · rw [← Except.ok.inj h]
    rfl
  · rw [← Except.ok.inj h]
    rfl
  · rw [← Except.ok.inj h]
    rfl

theorem packets_generatePkt (s : Injector) :
    (s.generatePkt P i).packets
      = s.packets.offer (Injector.makePkt P s.generated.length i) i.answer := by
  unfold Injector.generatePkt Injector.sendPkt Injector.sendTimingReq Packets.offer
  cases i.answer <;> rfl

/-- **`tick`** makes no packet, or one, which it offers to the port. -/
theorem tick_cases (h : s.tick P i = .ok s') :
    (s.sends P i = false ∧ s'.packets = s.packets)
    ∨ (s.sends P i = true
        ∧ s'.packets = s.packets.offer (Injector.makePkt P s.generated.length i) i.answer) := by
  unfold Injector.tick at h
  dsimp only at h
  -- the counter of cycles does not decide whether a packet is sent
  have hsame : Injector.sends P
      { s with tickScheduled := false, noResponseCycles := s.noResponseCycles + 1 } i
        = s.sends P i := rfl
  rw [hsame] at h
  split_ifs at h with hlimit hsends
  · refine .inr ⟨hsends, ?_⟩
    rw [packets_scheduleWakeup h, packets_generatePkt]
    rfl
  · refine .inl ⟨Bool.eq_false_iff.2 hsends, ?_⟩
    rw [packets_scheduleWakeup h]
    rfl

theorem doRetry_cases {rest : ℕ} {answer : Bool}
    (h : { s with owed := rest }.doRetry answer = .ok s') :
    ∃ pkt, s.retryPkt = some pkt ∧ s'.packets = s.packets.retry rest pkt answer := by
  unfold Injector.doRetry at h
  cases hpkt : s.retryPkt with
  | none =>
    simp only [hpkt] at h
    cases h
  | some pkt =>
    simp only [hpkt] at h
    refine ⟨pkt, rfl, ?_⟩
    obtain rfl := Except.ok.inj h
    unfold Injector.sendTimingReq Packets.retry Injector.packets
    cases answer
    · simp [hpkt]
    · rfl

/-! ## Nothing is lost -/

/-- Every packet is there once: taken by the port or waiting. The port asks only when one waits. -/
structure Safe (q : Packets) : Prop where
  distinct : q.generated.Nodup
  kept : q.generated.Perm (q.accepted ++ q.retryPkt.toList)
  asked : 0 < q.owed → q.retryPkt.isSome

/-- What a step keeps. The packets are numbered in order, and the port owes one request if a
packet waits and none otherwise. -/
structure Inv (q : Packets) : Prop where
  numbered : q.generated.map Packet.number = range q.generated.length
  kept : q.generated.Perm (q.accepted ++ q.retryPkt.toList)
  owed_eq : q.owed = q.retryPkt.toList.length

theorem Inv.safe {q : Packets} (h : Inv q) : Safe q where
  distinct := by
    apply Nodup.of_map Packet.number
    rw [h.numbered]
    exact nodup_range
  kept := h.kept
  asked hpos := by
    cases hpkt : q.retryPkt with
    | some pkt => rfl
    | none =>
      rw [h.owed_eq, hpkt] at hpos
      exact absurd hpos (Nat.lt_irrefl 0)

theorem numbered_concat {ps : List Packet} {pkt : Packet}
    (h : ps.map Packet.number = range ps.length) (hpkt : pkt.number = ps.length) :
    (ps ++ [pkt]).map Packet.number = range (ps ++ [pkt]).length := by
  rw [map_append, h, length_append, length_singleton, range_succ, map_singleton, hpkt]

/-- The new packet stands before the one that waits. -/
theorem kept_concat {ps accepted : List Packet} {waiting : List Packet} (pkt : Packet)
    (h : ps.Perm (accepted ++ waiting)) : (ps ++ [pkt]).Perm (accepted ++ [pkt] ++ waiting) := by
  rw [append_assoc]
  have hswap : (waiting ++ [pkt]).Perm ([pkt] ++ waiting) := perm_append_comm
  calc (ps ++ [pkt]).Perm (accepted ++ waiting ++ [pkt]) := h.append_right [pkt]
    _ = accepted ++ (waiting ++ [pkt]) := append_assoc _ _ _
    Perm _ (accepted ++ ([pkt] ++ waiting)) := hswap.append_left accepted

theorem Inv.offer {q : Packets} (h : Inv q) {pkt : Packet} {answer : Bool}
    (hnumber : pkt.number = q.generated.length)
    (hfree : answer = false → q.retryPkt = none) : Inv (q.offer pkt answer) := by
  cases answer with
  | true =>
    exact ⟨numbered_concat h.numbered hnumber, kept_concat pkt h.kept, h.owed_eq⟩
  | false =>
    have hnone := hfree rfl
    have hkept := h.kept
    have howed := h.owed_eq
    rw [hnone] at hkept howed
    rw [Option.toList_none, append_nil] at hkept
    refine ⟨numbered_concat h.numbered hnumber, hkept.append_right [pkt], ?_⟩
    show q.owed + 1 = 1
    rw [howed]
    rfl

theorem Inv.retry {q : Packets} (h : Inv q) {pkt : Packet} {rest : ℕ} {answer : Bool}
    (hpkt : q.retryPkt = some pkt) (hrest : rest < q.owed) : Inv (q.retry rest pkt answer) := by
  have howed := h.owed_eq
  have hkept := h.kept
  rw [hpkt] at howed hkept
  have hzero : rest = 0 := by
    rw [howed] at hrest
    exact Nat.lt_one_iff.1 hrest
  subst hzero
  cases answer with
  | true =>
    refine ⟨h.numbered, ?_, rfl⟩
    show q.generated.Perm (q.accepted ++ [pkt] ++ [])
    rwa [append_nil]
  | false =>
    refine ⟨h.numbered, h.kept, ?_⟩
    show 0 + 1 = q.retryPkt.toList.length
    rw [hpkt]
    rfl

/-! ## Runs -/

/-- A new packet is turned away while another one waits. -/
def Overwrites (P : Params) (s : Injector) : Event → Prop
  | .tick i => s.retryPkt.isSome ∧ s.sends P i = true ∧ i.answer = false
  | _ => False

/-- **One step**, when it overwrites nothing. -/
theorem Inv.step {e : Event} (h : Inv s.packets) (hfree : ¬ Overwrites P s e)
    (hstep : (injector P).Step s e s') : Inv s'.packets := by
  obtain ⟨henabled, hexec⟩ := hstep
  cases e with
  | tick i =>
    rcases tick_cases hexec with ⟨-, hsame⟩ | ⟨hsends, hoffer⟩
    · rwa [hsame]
    · rw [hoffer]
      apply h.offer rfl
      intro hanswer
      by_contra hsome
      exact hfree ⟨Option.isSome_iff_ne_none.2 hsome, hsends, hanswer⟩
  | recvReqRetry rest answer =>
    obtain ⟨pkt, hpkt, hretry⟩ := doRetry_cases hexec
    rw [hretry]
    exact h.retry hpkt (of_decide_eq_true henabled)
  | recvTimingResp =>
    obtain rfl := Except.ok.inj hexec
    exact h

theorem Inv.init : Inv ({} : Injector).packets := ⟨rfl, Perm.refl _, rfl⟩

/-- A step that overwrites leads out of the safe states: one packet more, and no place for it. -/
theorem not_safe_of_overwrites {e : Event} (h : Safe s.packets) (hover : Overwrites P s e)
    (hstep : (injector P).Step s e s') : ¬ Safe s'.packets := by
  intro hsafe
  cases e with
  | recvReqRetry rest answer => exact hover
  | recvTimingResp => exact hover
  | tick i =>
    obtain ⟨hsome, hsends, hanswer⟩ := hover
    obtain ⟨pkt, hpkt⟩ := Option.isSome_iff_exists.1 hsome
    rcases tick_cases hstep.2 with ⟨hno, -⟩ | ⟨-, hoffer⟩
    · rw [hsends] at hno
      simp at hno
    · have hbefore : s.generated.length = s.accepted.length + 1 := by
        have hlen := h.kept.length_eq
        rw [length_append] at hlen
        simpa [Injector.packets, hpkt] using hlen
      have hafter := hsafe.kept.length_eq
      rw [hoffer, hanswer] at hafter
      simp [Packets.offer, Injector.packets] at hafter
      omega

/-- One injector of four that sends in every cycle. -/
def everyCycle : Params where
  id := 1
  blockSizeBits := 6
  numDestinations := 4
  simCycles := 1000
  numPacketsMax := -1
  singleSender := -1
  singleDest := -1
  sim_type := 1
  traffic := .TRANSPOSE_
  injRate := 1
  injVnet := 0
  precision := 3
  responseLimit := 1000

/-- A packet that the port turns away. -/
def turnedAway : Event := .tick { trySending := 0, answer := false }

/-- **The injector loses no packet in a run exactly when no packet is turned away while another
one waits.** -/
theorem never_loses_a_packet_iff (P : Params) {es : List Event}
    (h : (injector P).run {} es = some s') :
    (∀ pre s, pre <+: es → (injector P).run {} pre = some s → Safe s.packets)
      ↔ (injector P).AllSteps (fun s e => ¬ Overwrites P s e) {} es := by
  constructor
  · intro hsafe pre e s1 hpre hrun hover
    obtain ⟨s2, hrun2⟩ := Machine.run_of_prefix hpre h
    obtain ⟨s1', hrun1, hstep⟩ := Machine.run_concat.1 hrun2
    obtain rfl : s1 = s1' := Option.some.inj (hrun.symm.trans hrun1)
    have hbefore := hsafe pre s1 ((prefix_append pre [e]).trans hpre) hrun
    exact not_safe_of_overwrites hbefore hover hstep (hsafe _ s2 hpre hrun2)
  · intro hall pre s1 hpre hrun
    have hinv : Inv s1.packets :=
      Machine.run_keeps_of (I := fun s => Inv s.packets)
        (fun s e s' hI hC hs => hI.step hC hs) Inv.init (hall.of_prefix hpre) hrun
    exact hinv.safe

/-- A packet that is turned away, and taken when the port asks for it. -/
theorem never_loses_a_packet_retried :
    ∃ s', (injector everyCycle).run {} [turnedAway, .recvReqRetry 0 true] = some s'
      ∧ ∀ pre s, pre <+: [turnedAway, .recvReqRetry 0 true] →
          (injector everyCycle).run {} pre = some s → Safe s.packets := by
  obtain ⟨s', hrun, -⟩ := Machine.exists_of_run_any (injector everyCycle) {}
    [turnedAway, .recvReqRetry 0 true] (fun s => s.accepted.length = 1) (by decide +kernel)
  refine ⟨s', hrun, (never_loses_a_packet_iff everyCycle hrun).2 ?_⟩
  intro pre e s1 hpre hrun1 hover
  match pre, hpre with
  | [], hpre =>
    -- nothing waits at the start
    obtain rfl := Option.some.inj hrun1
    rw [nil_append, cons_prefix_cons] at hpre
    rw [hpre.1] at hover
    exact absurd hover.1 Bool.false_ne_true
  | [_], hpre =>
    rw [singleton_append, cons_prefix_cons, cons_prefix_cons] at hpre
    rw [hpre.2.1] at hover
    exact hover
  | _ :: _ :: rest, hpre =>
    have hlen := hpre.length_le
    simp at hlen

/-- **Packets are lost.** Two packets are turned away one after the other: the first is then
neither taken nor waiting. If the port asks for both, the second time there is none. -/
theorem loses_a_packet :
    (∃ s, (injector everyCycle).run {} [turnedAway, turnedAway] = some s
      ∧ ∃ pkt ∈ s.generated, pkt ∉ s.accepted ∧ s.retryPkt ≠ some pkt)
    ∧ ∃ s, (injector everyCycle).run {} [turnedAway, turnedAway, .recvReqRetry 1 true] = some s
      ∧ 0 < s.owed ∧ s.retryPkt = none := by
  constructor
  · exact Machine.exists_of_run_any (injector everyCycle) _ _
      (fun s => ∃ pkt ∈ s.generated, pkt ∉ s.accepted ∧ s.retryPkt ≠ some pkt) (by decide +kernel)
  · exact Machine.exists_of_run_any (injector everyCycle) _ _
      (fun s => 0 < s.owed ∧ s.retryPkt = none) (by decide +kernel)

end Bindu.Testers
