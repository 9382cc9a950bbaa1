/-
Marked flits: the quota of each router, the exit test and the maximum latencies.

In a run of `sim_type` 2 every router may mark a number of the flits that are injected at it. The
network counts the marked flits injected and received, and when the last of them has been received
it copies the maximum latencies and asks the simulation to exit.

A run here is any interleaving of injections, at any interfaces, and receptions of flits that have
been injected. The two steps are what `flitisizeMessage` and `incrementStats` do to the
statistics, and the two lemmas at their definitions say so.
-/
import Bindu.Lib.Runs
import Bindu.Garnet.Mesh
import Bindu.Garnet.NetworkInterface

open Bindu.Lib Function List Except Machine

namespace Bindu.Garnet

/-! ## The two steps -/

/-- The delays of a flit. -/
structure Delays where
  network : ℕ
  queueing : ℕ
  deriving DecidableEq

def Delays.total (d : Delays) : ℕ := d.queueing + d.network

/-- The delays `incrementStats` computes in cycle `now`. -/
def delaysOf (f : flit) (now : ℕ) : Except Fault Delays := do
  let d ← cyclesSub f.m_dequeue_time f.m_enqueue_time
  let network_delay ← cyclesSub d 1
  let dest_queueing_delay ← cyclesSub now f.m_dequeue_time
  pure ⟨network_delay, f.src_delay + dest_queueing_delay⟩

/-- The statistics after the three updates that follow the count. -/
def NetStats.recordDelays (st : NetStats) (d : Delays) (marked : Bool) : NetStats :=
  ((st.increment_flit_latency d.network marked).increment_flit_latency d.queueing
    marked).update_flit_latency d.total d.network d.queueing marked

variable (net : GarnetNetwork)

/-- `incrementStats`, on the statistics. -/
def receive (st : NetStats) (now : ℕ) (f : flit) : Except Fault NetStats := do
  assert (net.sim_type = 2 || net.sim_type = 1) .sim_type
  let st ← st.increment_received_flits net.num_routers f.m_marked
  let d ← delaysOf f now
  let st := st.recordDelays d f.m_marked
  pure (if net.sim_type = 2 ∧ now > net.warmup_cycles then st.check_network_saturation now else st)

theorem incrementStats_eq (s : NetState) (f : flit) :
    NetworkInterface.incrementStats net s f
      = (fun st => { s with stats := st }) <$> receive net s.stats s.now f := by
  unfold NetworkInterface.incrementStats receive delaysOf
  simp only [map_bind, bind_assoc, pure_bind, map_pure]
  rfl

/-- A flit injected at interface `n` in cycle `now` takes a mark if there is one left. -/
def NetStats.takesMark (st : NetStats) (n now : ℕ) : Bool :=
  net.sim_type = 2 && now > net.warmup_cycles && 0 < st.mrkd_flt_ (net.m_router_id n)

/-- The statistics after an injection at interface `n`. -/
def NetStats.inject (st : NetStats) (n : ℕ) (marked : Bool) : NetStats :=
  let r := net.m_router_id n
  let mrkd := if marked then st.mrkd_flt_ r - 1 else st.mrkd_flt_ r
  { st with mrkd_flt_ := update st.mrkd_flt_ r mrkd }.increment_injected_flits marked

theorem create_flit_stats [StdHeap] {s s' : NetState} {n vnet vc destID : ℕ} {msg : Message}
    {dest : NetDest} (h : NetworkInterface.create_flit net s n vnet vc destID msg dest = .ok s') :
    s'.stats = s.stats.inject net n (s.stats.takesMark net n s.now)
      ∧ ∃ f, s'.injected n = s.injected n ++ [f] ∧ f.m_marked = s.stats.takesMark net n s.now := by
  unfold NetworkInterface.create_flit at h
  obtain ⟨src_delay, -, h⟩ := bind_eq_ok.mp h
  obtain rfl := Except.ok.inj h
  exact ⟨rfl, _, Function.update_self .., rfl⟩

/-! ## Runs -/

/-- The statistics, the flits that have been injected and not yet received, and the delays of the
marked flits received so far. -/
structure Marking where
  stats : NetStats
  inFlight : List flit
  received : List Delays

inductive MarkEvent
  /-- Flit `f` is created at interface `n` in cycle `now`. -/
  | inject (n now : ℕ) (f : flit)
  /-- The `i`-th flit in flight, taken from its link in cycle `dequeue_time`, is received. -/
  | receive (i dequeue_time now : ℕ)

/-- The mark of a new flit is the one `flitisizeMessage` gives it. -/
def marking : Machine Marking MarkEvent Fault where
  enabled x
    | .inject n now f => n < net.num_nodes && net.m_router_id n < net.num_routers
        && f.m_marked == x.stats.takesMark net n now
    | .receive i _ _ => i < x.inFlight.length
  exec x
    | .inject n _ f => pure { x with
        stats := x.stats.inject net n f.m_marked
        inFlight := x.inFlight ++ [f] }
    | .receive i dequeue_time now =>
      match x.inFlight[i]? with
      | none => pure x
      | some f => do
          let f := f.set_dequeue_time dequeue_time
          let st ← Garnet.receive net x.stats now f
          let d ← delaysOf f now
          pure {
            stats := st
            inFlight := x.inFlight.eraseIdx i
            received := if f.m_marked then x.received ++ [d] else x.received }

def Marking.init : Marking := ⟨net.initStats, [], []⟩

/-! ## What a reception does -/

/-- The statistics with one more marked flit received. -/
def NetStats.counted (st : NetStats) : NetStats :=
  { st with
    marked_flt_received := st.marked_flt_received + 1
    total_marked_flit_received := st.total_marked_flit_received + 1 }

section Receive

variable {net} {st st' : NetStats} {k now : ℕ} {f : flit}

/-- **`increment_received_flits`**: nothing but the count, or the copy of the maxima and the
request to exit. -/
theorem increment_received_flits_cases (h : st.increment_received_flits k f.m_marked = .ok st') :
    (f.m_marked = false ∧ st' = st)
    ∨ (f.m_marked = true ∧ st.counted.check_mrkd_flt k = false ∧ st' = st.counted)
    ∨ (f.m_marked = true ∧ st.counted.check_mrkd_flt k = true
        ∧ st' = st.counted.record_maxima) := by
  unfold NetStats.increment_received_flits at h
  cases hm : f.m_marked with
  | false =>
    rw [hm] at h
    exact .inl ⟨rfl, (ok.inj h).symm⟩
  | true =>
    rw [hm, if_pos rfl] at h
    change (if st.counted.check_mrkd_flt k = true then _ else _) = _ at h
    cases hcheck : st.counted.check_mrkd_flt k with
    | false =>
      rw [hcheck, if_neg Bool.false_ne_true] at h
      exact .inr (.inl ⟨rfl, rfl, (ok.inj h).symm⟩)
    | true =>
      rw [hcheck, if_pos rfl] at h
      obtain ⟨_, -, h⟩ := bind_eq_ok.mp h
      exact .inr (.inr ⟨rfl, rfl, (ok.inj h).symm⟩)

/-- The last part of a reception leaves the counters and the requests of the exit test alone. -/
structure AfterCount (st st' : NetStats) : Prop where
  mrkd : st'.mrkd_flt_ = st.mrkd_flt_
  injected : st'.marked_flt_injected = st.marked_flt_injected
  received : st'.marked_flt_received = st.marked_flt_received
  exits : st'.exits.count .all_marked_received = st.exits.count .all_marked_received

theorem afterCount_recordDelays (st : NetStats) (d : Delays) (marked : Bool) :
    AfterCount st (st.recordDelays d marked) := by
  cases marked <;> exact ⟨rfl, rfl, rfl, rfl⟩

theorem afterCount_check_network_saturation (st : NetStats) (now : ℕ) :
    AfterCount st (st.check_network_saturation now) := by
  unfold NetStats.check_network_saturation
  split_ifs <;> refine ⟨rfl, rfl, rfl, ?_⟩ <;> simp [count_append]

theorem AfterCount.trans {st1 st2 st3 : NetStats} (h : AfterCount st1 st2)
    (h' : AfterCount st2 st3) : AfterCount st1 st3 :=
  ⟨h'.mrkd.trans h.mrkd, h'.injected.trans h.injected, h'.received.trans h.received,
    h'.exits.trans h.exits⟩

/-- **`incrementStats`**: the count, the delays and what follows from them. -/
theorem receive_cases (h : receive net st now f = .ok st') :
    ∃ st1 d, st.increment_received_flits net.num_routers f.m_marked = .ok st1
      ∧ delaysOf f now = .ok d ∧ AfterCount st1 st'
      ∧ (st' = st1.recordDelays d f.m_marked
        ∨ st' = (st1.recordDelays d f.m_marked).check_network_saturation now) := by
  unfold receive at h
  obtain ⟨_, -, h⟩ := bind_eq_ok.mp h
  obtain ⟨st1, h1, h⟩ := bind_eq_ok.mp h
  obtain ⟨d, hd, h⟩ := bind_eq_ok.mp h
  refine ⟨st1, d, h1, hd, ?_, ?_⟩
  · rw [← ok.inj h]
    split_ifs
    · exact (afterCount_recordDelays st1 d _).trans (afterCount_check_network_saturation _ now)
    · exact afterCount_recordDelays st1 d _
  · rw [← ok.inj h]
    split_ifs
    · exact .inr rfl
    · exact .inl rfl

end Receive

/-! ## Maximum latencies -/

/-- Three latencies: of all, in the network, in queues. -/
structure Maxima where
  total : ℕ
  network : ℕ
  queueing : ℕ
  deriving DecidableEq

/-- The maxima over a list of flits. -/
def maximaOf (l : List Delays) : Maxima where
  total := (l.map Delays.total).foldl max 0
  network := (l.map Delays.network).foldl max 0
  queueing := (l.map Delays.queueing).foldl max 0

/-- The maxima the network keeps of the marked flits, and those it reports. -/
def NetStats.kept (st : NetStats) : Maxima :=
  ⟨st.marked_flit_latency, st.marked_flit_network_latency, st.marked_flit_queueing_latency⟩

def NetStats.reported (st : NetStats) : Maxima :=
  ⟨st.m_max_marked_flit_latency, st.m_max_marked_flit_network_latency,
    st.m_max_marked_flit_queueing_latency⟩

/-- One more flit. -/
def Maxima.add (m : Maxima) (d : Delays) : Maxima :=
  ⟨max m.total d.total, max m.network d.network, max m.queueing d.queueing⟩

theorem maximaOf_concat (l : List Delays) (d : Delays) :
    maximaOf (l ++ [d]) = (maximaOf l).add d := by
  simp only [maximaOf, Maxima.add, map_append, foldl_append, map_cons, map_nil,
    foldl_cons, foldl_nil]

theorem Maxima.eq_add_iff (m : Maxima) (d : Delays) :
    m = m.add d ↔ d.total ≤ m.total ∧ d.network ≤ m.network ∧ d.queueing ≤ m.queueing := by
  obtain ⟨t, n, q⟩ := m
  simp only [Maxima.add, Maxima.mk.injEq, left_eq_sup]

section Latencies

variable {net} {st st' : NetStats} {k now : ℕ} {f : flit}

theorem kept_increment_received_flits
    (h : st.increment_received_flits k f.m_marked = .ok st') : st'.kept = st.kept := by
  rcases increment_received_flits_cases h with ⟨-, rfl⟩ | ⟨-, -, rfl⟩ | ⟨-, -, rfl⟩
  · rfl
  · rfl
  · rfl

theorem reported_of_exit (h : st.increment_received_flits k f.m_marked = .ok st')
    (hexit : st'.exits ≠ st.exits) : st'.reported = st.kept := by
  rcases increment_received_flits_cases h with ⟨-, rfl⟩ | ⟨-, -, rfl⟩ | ⟨-, -, rfl⟩
  · exact absurd rfl hexit
  · exact absurd rfl hexit
  · rfl

theorem kept_recordDelays (st : NetStats) (d : Delays) (marked : Bool) :
    (st.recordDelays d marked).kept = if marked then st.kept.add d else st.kept := by
  cases marked <;> rfl

theorem kept_check_network_saturation (st : NetStats) (now : ℕ) :
    (st.check_network_saturation now).kept = st.kept := by
  unfold NetStats.check_network_saturation
  split_ifs <;> rfl

theorem kept_receive {d : Delays} (h : receive net st now f = .ok st')
    (hd : delaysOf f now = .ok d) :
    st'.kept = if f.m_marked then st.kept.add d else st.kept := by
  obtain ⟨st1, d', h1, hd', -, hst'⟩ := receive_cases h
  obtain rfl : d = d' := ok.inj (hd.symm.trans hd')
  rcases hst' with rfl | rfl
  · rw [kept_recordDelays, kept_increment_received_flits h1]
  · rw [kept_check_network_saturation, kept_recordDelays, kept_increment_received_flits h1]

/-- A step of a run: an injection, or a reception with its delays. -/
theorem marking_step_cases {x x' : Marking} {e : MarkEvent} (h : (marking net).Step x e x') :
    (∃ n now f, e = .inject n now f ∧ net.m_router_id n < net.num_routers
        ∧ f.m_marked = x.stats.takesMark net n now
        ∧ x' = ⟨x.stats.inject net n f.m_marked, x.inFlight ++ [f], x.received⟩)
    ∨ (∃ i dequeue_time now f d st, e = .receive i dequeue_time now ∧ x.inFlight[i]? = some f
        ∧ receive net x.stats now (f.set_dequeue_time dequeue_time) = .ok st
        ∧ delaysOf (f.set_dequeue_time dequeue_time) now = .ok d
        ∧ x' = ⟨st, x.inFlight.eraseIdx i,
            if f.m_marked then x.received ++ [d] else x.received⟩) := by
  obtain ⟨henabled, hexec⟩ := h
  cases e with
  | inject n now f =>
    simp only [marking, Bool.and_eq_true, decide_eq_true_eq, beq_iff_eq] at henabled
    exact .inl ⟨n, now, f, rfl, henabled.1.2, henabled.2, (ok.inj hexec).symm⟩
  | receive i dequeue_time now =>
    have hlt : i < x.inFlight.length := of_decide_eq_true henabled
    have hf := getElem?_eq_getElem hlt
    simp only [marking, hf] at hexec
    obtain ⟨st, hst, hexec⟩ := bind_eq_ok.mp hexec
    obtain ⟨d, hd, hexec⟩ := bind_eq_ok.mp hexec
    exact .inr ⟨i, dequeue_time, now, x.inFlight[i], d, st, rfl, hf, hst, hd, (ok.inj hexec).symm⟩

/-- **What the network keeps are the maxima over the marked flits received.** -/
theorem kept_run {es : List MarkEvent} {x : Marking}
    (h : (marking net).run (.init net) es = some x) : x.stats.kept = maximaOf x.received := by
  refine run_keeps (I := fun x => x.stats.kept = maximaOf x.received) ?_ rfl h
  intro x e x' hx hstep
  rcases marking_step_cases hstep with ⟨n, now, f, -, -, -, rfl⟩ | ⟨i, dq, now, f, d, st, -, -, hst,
    hd, rfl⟩
  · cases hm : f.m_marked <;> exact hx
  · have hkept := kept_receive hst hd
    change st.kept = if f.m_marked then x.stats.kept.add d else x.stats.kept at hkept
    rw [hkept, hx]
    split_ifs
    · rw [maximaOf_concat]
    · rfl

theorem reported_recordDelays (st : NetStats) (d : Delays) (marked : Bool) :
    (st.recordDelays d marked).reported = st.reported := by
  cases marked <;> rfl

theorem reported_check_network_saturation (st : NetStats) (now : ℕ) :
    (st.check_network_saturation now).reported = st.reported := by
  unfold NetStats.check_network_saturation
  split_ifs <;> rfl

/-- The number of times the exit has been requested because all marked flits were received. -/
def NetStats.markedExits (st : NetStats) : ℕ := st.exits.count .all_marked_received

/-- A reception that requests the exit is one of a marked flit, and reports what was kept. -/
theorem receive_exit (h : receive net st now f = .ok st')
    (hexit : st'.markedExits ≠ st.markedExits) : f.m_marked = true ∧ st'.reported = st.kept := by
  obtain ⟨st1, d, h1, -, hafter, hst'⟩ := receive_cases h
  have hexit1 : st1.exits ≠ st.exits := by
    intro heq
    apply hexit
    rw [NetStats.markedExits, hafter.exits, heq]
    rfl
  constructor
  · rcases increment_received_flits_cases h1 with ⟨-, rfl⟩ | ⟨hm, -⟩ | ⟨hm, -⟩
    · exact absurd rfl hexit1
    · exact hm
    · exact hm
  · rw [← reported_of_exit h1 hexit1]
    rcases hst' with rfl | rfl
    · exact reported_recordDelays st1 d _
    · rw [reported_check_network_saturation, reported_recordDelays]

/-- **The maxima at the exit.** When the reception of flit `f` makes the network ask for the exit,
the latencies it reports are the maxima over all marked flits received, `f` included, exactly when
no latency of `f` is above those of the marked flits before it. -/
theorem reported_maxima_iff {es : List MarkEvent} {x x' : Marking} {i dequeue_time : ℕ}
    {d : Delays} (h : (marking net).run (.init net) es = some x)
    (hstep : (marking net).Step x (.receive i dequeue_time now) x')
    (hf : x.inFlight[i]? = some f) (hd : delaysOf (f.set_dequeue_time dequeue_time) now = .ok d)
    (hexit : x'.stats.markedExits ≠ x.stats.markedExits) :
    x'.stats.reported = maximaOf x'.received
      ↔ d.total ≤ (maximaOf x.received).total ∧ d.network ≤ (maximaOf x.received).network
        ∧ d.queueing ≤ (maximaOf x.received).queueing := by
  rcases marking_step_cases hstep with ⟨_, _, _, he, -⟩ | ⟨_, _, _, f', d', st, he, hf', hst, hd', rfl⟩
  · cases he
  · cases he
    obtain rfl : f = f' := Option.some.inj (hf.symm.trans hf')
    obtain rfl : d = d' := ok.inj (hd.symm.trans hd')
    obtain ⟨hm, hreported⟩ := receive_exit hst hexit
    change f.m_marked = true at hm
    rw [hreported, kept_run h, if_pos hm, maximaOf_concat]
    exact Maxima.eq_add_iff _ d

end Latencies

/-- Four routers in a square; two flits that are injected at the first one are marked. -/
def markedNet : GarnetNetwork :=
  (Mesh_XY .twoByTwo 1).network { Params.default 2 with
    sim_type := 2
    warmup_cycles := 0
    marked_flit := fun r => if r = 0 then 2 else 0 } (by decide)

/-- A marked flit that was made in cycle 1. -/
def markedFlit : flit :=
  flit.new 0 0 0 0 (NetworkInterface.routeTo markedNet 0 0 3 {3}) 1 ⟨0, {3}, 1, 1, 0⟩ 1 true 0

/-- Two marked flits are injected in cycle 1, and one is received in cycle `t`. -/
def twoMarked (t : ℕ) : List MarkEvent :=
  [.inject 0 1 markedFlit, .inject 0 1 markedFlit, .receive 0 t t]

/-- The second flit takes less time than the first. -/
theorem reported_maxima_slower_first : ∃ x x',
    (marking markedNet).run (.init markedNet) (twoMarked 9) = some x
    ∧ (marking markedNet).Step x (.receive 0 5 5) x' ∧ x'.stats.markedExits ≠ x.stats.markedExits
    ∧ x'.stats.reported = maximaOf x'.received := by
  obtain ⟨x', hrun', hexit'⟩ := exists_of_run_any (marking markedNet) (.init markedNet)
    (twoMarked 9 ++ [.receive 0 5 5]) (fun x => x.stats.markedExits = 1) (by decide +kernel)
  obtain ⟨x0, hrun0, hx⟩ := exists_of_run_any (marking markedNet) (.init markedNet)
    (twoMarked 9) (fun x => x.stats.markedExits = 0 ∧ x.inFlight[0]? = some markedFlit
      ∧ maximaOf x.received = ⟨7, 7, 0⟩) (by decide +kernel)
  obtain ⟨x, hrun, hstep⟩ := run_concat.1 hrun'
  obtain rfl : x = x0 := Option.some.inj (hrun.symm.trans hrun0)
  have hexit : x'.stats.markedExits ≠ x.stats.markedExits := by
    rw [hexit', hx.1]
    decide
  refine ⟨x, x', hrun, hstep, hexit, ?_⟩
  refine (reported_maxima_iff (d := ⟨3, 0⟩) hrun hstep hx.2.1 (by decide +kernel) hexit).2 ?_
  rw [hx.2.2]
  decide

/-- **The last flit is left out.** The second flit takes longer than the first, and the latencies
that are reported are those of the first. -/
theorem reported_maxima_without_last : ∃ x x',
    (marking markedNet).run (.init markedNet) (twoMarked 5) = some x
    ∧ (marking markedNet).Step x (.receive 0 9 9) x' ∧ x'.stats.markedExits ≠ x.stats.markedExits
    ∧ x'.stats.reported = ⟨3, 3, 0⟩ ∧ maximaOf x'.received = ⟨7, 7, 0⟩ := by
  obtain ⟨x', hrun', hx'⟩ := exists_of_run_any (marking markedNet) (.init markedNet)
    (twoMarked 5 ++ [.receive 0 9 9]) (fun x => x.stats.markedExits = 1
      ∧ x.stats.reported = ⟨3, 3, 0⟩ ∧ maximaOf x.received = ⟨7, 7, 0⟩) (by decide +kernel)
  obtain ⟨x0, hrun0, hx⟩ := exists_of_run_any (marking markedNet) (.init markedNet)
    (twoMarked 5) (fun x => x.stats.markedExits = 0) (by decide +kernel)
  obtain ⟨x, hrun, hstep⟩ := run_concat.1 hrun'
  obtain rfl : x = x0 := Option.some.inj (hrun.symm.trans hrun0)
  refine ⟨x, x', hrun, hstep, ?_, hx'.2⟩
  rw [hx'.1, hx]
  decide

/-! ## The quota -/

/-- What is left of the quotas, and their initial total. -/
def NetStats.quotaLeft (net : GarnetNetwork) (st : NetStats) : ℤ :=
  ∑ r ∈ Finset.range net.num_routers, st.mrkd_flt_ r

def GarnetNetwork.totalQuota (net : GarnetNetwork) : ℤ :=
  ∑ r ∈ Finset.range net.num_routers, net.marked_flit r

/-- The marked flits in flight. -/
def Marking.markedInFlight (x : Marking) : ℕ := x.inFlight.countP flit.m_marked

/-- The accounts of a run. -/
structure Accounts (net : GarnetNetwork) (x : Marking) : Prop where
  quota : x.stats.quotaLeft net + x.stats.marked_flt_injected = net.totalQuota
  nonneg : ∀ r < net.num_routers, 0 ≤ x.stats.mrkd_flt_ r
  flight : x.stats.marked_flt_received + x.markedInFlight = x.stats.marked_flt_injected
  exits : x.stats.markedExits
    = if 0 < x.stats.marked_flt_received ∧ (x.stats.marked_flt_received : ℤ) = net.totalQuota
      then 1 else 0

section Accounting

variable {net} {x x' : Marking} {st st' : NetStats} {f : flit}

theorem quotaLeft_inject {n : ℕ} (hn : net.m_router_id n < net.num_routers) (marked : Bool) :
    (st.inject net n marked).quotaLeft net = st.quotaLeft net - if marked then 1 else 0 := by
  cases marked with
  | false =>
    have hsame : (st.inject net n false).mrkd_flt_ = st.mrkd_flt_ := update_eq_self _ _
    rw [NetStats.quotaLeft, hsame, if_neg Bool.false_ne_true, sub_zero]
    rfl
  | true =>
    have hmem := Finset.mem_range.2 hn
    show ∑ r ∈ _, update st.mrkd_flt_ (net.m_router_id n) _ r = _
    rw [Finset.sum_update_of_mem hmem, NetStats.quotaLeft,
      ← Finset.add_sum_erase _ _ hmem, Finset.sdiff_singleton_eq_erase, if_pos rfl, if_pos rfl]
    ring

theorem check_mrkd_flt_iff (k : ℕ) :
    st.check_mrkd_flt k = true
      ↔ (∀ r < k, st.mrkd_flt_ r ≤ 0) ∧ st.marked_flt_injected ≤ st.marked_flt_received := by
  unfold NetStats.check_mrkd_flt
  by_cases hany : (range k).any (fun r => decide (0 < st.mrkd_flt_ r)) = true
  · rw [if_pos hany]
    refine ⟨fun h => absurd h Bool.false_ne_true, fun h => ?_⟩
    obtain ⟨r, hr, hpos⟩ := any_eq_true.1 hany
    exact absurd (h.1 r (mem_range.1 hr)) (not_le.2 (of_decide_eq_true hpos))
  · rw [if_neg hany, Bool.not_eq_true', decide_eq_false_iff_not, not_lt]
    refine ⟨fun h => ⟨fun r hr => ?_, h⟩, fun h => h.2⟩
    by_contra hpos
    exact hany (any_eq_true.2 ⟨r, mem_range.2 hr, decide_eq_true (not_le.1 hpos)⟩)

theorem Accounts.check_iff (h : Accounts net x) (hflight : 0 < x.markedInFlight) :
    x.stats.counted.check_mrkd_flt net.num_routers = true
      ↔ (x.stats.marked_flt_received : ℤ) + 1 = net.totalQuota := by
  have hquota := h.quota
  have hfl := h.flight
  have hleft : 0 ≤ x.stats.quotaLeft net :=
    Finset.sum_nonneg (fun r hr => h.nonneg r (Finset.mem_range.1 hr))
  rw [check_mrkd_flt_iff]
  constructor
  · rintro ⟨hzero, hle⟩
    have hsum : x.stats.quotaLeft net = 0 :=
      Finset.sum_eq_zero (fun r hr => le_antisymm (hzero r (Finset.mem_range.1 hr))
        (h.nonneg r (Finset.mem_range.1 hr)))
    have hle' : x.stats.marked_flt_injected ≤ x.stats.marked_flt_received + 1 := hle
    omega
  · intro htotal
    have hsum : x.stats.quotaLeft net = 0 := by omega
    refine ⟨fun r hr => ?_, ?_⟩
    · have hall := (Finset.sum_eq_zero_iff_of_nonneg (fun r hr =>
        h.nonneg r (Finset.mem_range.1 hr))).1 hsum
      exact (hall r (Finset.mem_range.2 hr)).le
    · show x.stats.marked_flt_injected ≤ x.stats.marked_flt_received + 1
      omega

theorem markedInFlight_pos {i : ℕ} (hf : x.inFlight[i]? = some f) (hm : f.m_marked = true) :
    0 < x.markedInFlight :=
  countP_pos_iff.2 ⟨f, mem_of_getElem? hf, hm⟩

theorem countP_eraseIdx {l : List flit} {i : ℕ} (hf : l[i]? = some f) :
    (l.eraseIdx i).countP flit.m_marked + (if f.m_marked then 1 else 0) = l.countP flit.m_marked := by
  obtain ⟨hlt, rfl⟩ := List.getElem?_eq_some_iff.1 hf
  rw [List.eraseIdx_eq_take_drop_succ, List.countP_append]
  conv_rhs => rw [← List.take_append_drop i l, List.countP_append, List.drop_eq_getElem_cons hlt,
    List.countP_cons]
  omega

theorem Accounts.inject (h : Accounts net x) {n now : ℕ}
    (hn : net.m_router_id n < net.num_routers) (hm : f.m_marked = x.stats.takesMark net n now) :
    Accounts net ⟨x.stats.inject net n f.m_marked, x.inFlight ++ [f], x.received⟩ := by
  have hquota := h.quota
  have hflight := h.flight
  have hcount : (x.inFlight ++ [f]).countP flit.m_marked
      = x.markedInFlight + if f.m_marked then 1 else 0 := by
    rw [countP_append, countP_singleton]
    rfl
  cases hmark : f.m_marked with
  | false =>
    rw [hmark, if_neg Bool.false_ne_true, Nat.add_zero] at hcount
    have hsame : (x.stats.inject net n false).mrkd_flt_ = x.stats.mrkd_flt_ :=
      update_eq_self _ _
    refine ⟨?_, ?_, ?_, h.exits⟩
    · rw [quotaLeft_inject hn, if_neg Bool.false_ne_true, sub_zero]
      exact hquota
    · rw [hsame]
      exact h.nonneg
    · show x.stats.marked_flt_received + (x.inFlight ++ [f]).countP flit.m_marked = _
      rw [hcount]
      exact hflight
  | true =>
    rw [hmark, if_pos rfl] at hcount
    refine ⟨?_, ?_, ?_, h.exits⟩
    · rw [quotaLeft_inject hn, if_pos rfl]
      show x.stats.quotaLeft net - 1 + ((x.stats.marked_flt_injected + 1 : ℕ) : ℤ) = _
      push_cast
      omega
    · -- a mark is taken only where one is left
      have hpos : 0 < x.stats.mrkd_flt_ (net.m_router_id n) := by
        rw [hmark, NetStats.takesMark, eq_comm, Bool.and_eq_true] at hm
        exact of_decide_eq_true hm.2
      intro r hr
      show 0 ≤ update x.stats.mrkd_flt_ (net.m_router_id n) _ r
      by_cases hreq : r = net.m_router_id n
      · rw [hreq, update_self, if_pos rfl]
        omega
      · rw [update_of_ne hreq]
        exact h.nonneg r hr
    · show x.stats.marked_flt_received + (x.inFlight ++ [f]).countP flit.m_marked
        = x.stats.marked_flt_injected + 1
      rw [hcount]
      omega

/-- The assertion in `increment_received_flits` is about a flit in flight, and holds. -/
theorem Accounts.increment_received_flits (h : Accounts net x) {i : ℕ}
    (hf : x.inFlight[i]? = some f) :
    x.stats.increment_received_flits net.num_routers f.m_marked = .ok (if f.m_marked then
          if (x.stats.marked_flt_received : ℤ) + 1 = net.totalQuota then
            x.stats.counted.record_maxima
          else x.stats.counted
        else x.stats) := by
  unfold NetStats.increment_received_flits
  cases hm : f.m_marked with
  | false => rfl
  | true =>
    have hpos := markedInFlight_pos hf hm
    have hcheck := h.check_iff hpos
    rw [if_pos rfl, if_pos rfl]
    change (if x.stats.counted.check_mrkd_flt net.num_routers = true then _ else _) = _
    by_cases htotal : (x.stats.marked_flt_received : ℤ) + 1 = net.totalQuota
    · have hassert : x.stats.marked_flt_injected = x.stats.marked_flt_received + 1 := by
        have hle : x.stats.marked_flt_injected ≤ x.stats.marked_flt_received + 1 :=
          ((check_mrkd_flt_iff _).1 (hcheck.2 htotal)).2
        have hflight := h.flight
        omega
      rw [if_pos (hcheck.2 htotal), if_pos htotal]
      rw [decide_eq_true hassert, assert_true, ok_bind]
      rfl
    · rw [if_neg (fun hc => htotal (hcheck.1 hc)), if_neg htotal]
      rfl

theorem Accounts.receive (h : Accounts net x) {i dequeue_time now : ℕ} {d : Delays}
    (hf : x.inFlight[i]? = some f)
    (hst : Garnet.receive net x.stats now (f.set_dequeue_time dequeue_time) = .ok st) :
    Accounts net ⟨st, x.inFlight.eraseIdx i,
      if f.m_marked then x.received ++ [d] else x.received⟩ := by
  have hquota := h.quota
  have hflight := h.flight
  have hleft : 0 ≤ x.stats.quotaLeft net :=
    Finset.sum_nonneg (fun r hr => h.nonneg r (Finset.mem_range.1 hr))
  have herase := countP_eraseIdx hf
  obtain ⟨st1, _, h1, -, hafter, -⟩ := receive_cases hst
  change x.stats.increment_received_flits net.num_routers f.m_marked = .ok st1 at h1
  rw [h.increment_received_flits hf, ok.injEq] at h1
  have hmrkd : st.mrkd_flt_ = x.stats.mrkd_flt_ := by
    rw [hafter.mrkd, ← h1]
    split_ifs <;> rfl
  have hinjected : st.marked_flt_injected = x.stats.marked_flt_injected := by
    rw [hafter.injected, ← h1]
    split_ifs <;> rfl
  have hreceived : st.marked_flt_received
      = x.stats.marked_flt_received + if f.m_marked then 1 else 0 := by
    rw [hafter.received, ← h1]
    split_ifs <;> rfl
  refine ⟨?_, ?_, ?_, ?_⟩
  · show st.quotaLeft net + (st.marked_flt_injected : ℤ) = _
    rw [NetStats.quotaLeft, hmrkd, hinjected]
    exact hquota
  · rw [hmrkd]
    exact h.nonneg
  · show st.marked_flt_received + (x.inFlight.eraseIdx i).countP flit.m_marked
      = st.marked_flt_injected
    rw [hreceived, hinjected, ← hflight, Marking.markedInFlight, ← herase]
    omega
  · show st.markedExits = _
    rw [NetStats.markedExits, hafter.exits, hreceived, ← h1]
    have hexits := h.exits
    rw [NetStats.markedExits] at hexits
    cases hm : f.m_marked with
    | false =>
      rw [if_neg Bool.false_ne_true, if_neg Bool.false_ne_true, Nat.add_zero]
      exact hexits
    | true =>
      -- with a marked flit in flight not all have been received
      have hpos := markedInFlight_pos hf hm
      rw [if_neg (by omega)] at hexits
      rw [if_pos rfl, if_pos rfl]
      by_cases htotal : (x.stats.marked_flt_received : ℤ) + 1 = net.totalQuota
      · rw [if_pos htotal, if_pos ⟨Nat.succ_pos _, by push_cast; exact htotal⟩]
        show (x.stats.exits ++ [ExitReason.all_marked_received]).count _ = 1
        rw [count_append, hexits]
        rfl
      · rw [if_neg htotal, if_neg (fun hc => htotal (by exact_mod_cast hc.2))]
        exact hexits

theorem Accounts.run (hquota : ∀ r < net.num_routers, 0 ≤ net.marked_flit r) {es : List MarkEvent}
    (h : (marking net).run (.init net) es = some x) : Accounts net x := by
  refine run_keeps ?_ ?_ h
  · intro x e x' hx hstep
    rcases marking_step_cases hstep with ⟨n, now, f, -, hn, hm, rfl⟩ | ⟨i, dq, now, f, d, st, -, hf,
      hst, -, rfl⟩
    · exact hx.inject hn hm
    · exact hx.receive hf hst
  · exact ⟨Int.add_zero _, hquota, rfl, rfl⟩

end Accounting

end Bindu.Garnet
