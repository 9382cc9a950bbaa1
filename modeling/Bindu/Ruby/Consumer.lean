/-
The wakeups of a Ruby consumer.

A consumer asks its clocked object for events that call `wakeup`, and remembers the ticks it has
asked for, so that a second request for the same tick makes no second event. Each request also
forgets the ticks before the next clock edge. A tick may be forgotten while its event is still
pending, when the clock period has changed in between; but the next clock edge only moves
forward, so no later request is for that tick.

Ticks are natural numbers. The event queue is seen from the consumer: time does not pass one of
its events, and other objects run in between, at any tick.

Sources: `mem/ruby/common/Consumer.{hh,cc}`, `sim/clocked_object.hh`, `sim/clock_domain.cc`.
-/
import Bindu.Garnet.State
import Bindu.Lib.Runs

open Bindu.Lib List

namespace Bindu.Ruby

/-! ## The clock -/

/-- `Clocked`: the next clock edge as `update` last found it, and the period of its clock domain.
The cycle counter is not read here. -/
structure Clocked where
  tick : ℕ
  clockPeriod : ℕ

namespace Clocked

def update (c : Clocked) (curTick : ℕ) : Clocked :=
  if c.tick ≥ curTick then
    c
  else
    -- the common case: one period on
    let tick := c.tick + c.clockPeriod
    if tick ≥ curTick then
      { c with tick := tick }
    else
      -- `divCeil(curTick() - tick, clockPeriod())`
      let elapsedCycles := (curTick - tick + c.clockPeriod - 1) / c.clockPeriod
      { c with tick := tick + elapsedCycles * c.clockPeriod }

/-- `clockEdge`, which also leaves the clock updated. -/
def clockEdge (c : Clocked) (curTick cycles : ℕ) : ℕ :=
  (c.update curTick).tick + c.clockPeriod * cycles

/-- The next clock edge only moves forward. -/
theorem tick_le_update (c : Clocked) (curTick : ℕ) : c.tick ≤ (c.update curTick).tick := by
  simp only [update]
  split_ifs
  · exact le_rfl
  · exact Nat.le_add_right _ _
  · exact le_trans (Nat.le_add_right _ _) (Nat.le_add_right _ _)

end Clocked

/-! ## The consumer -/

/-- The assertion of `EventQueue::schedule`. -/
inductive ConsumerFault
  | schedule_in_the_past

/-- A consumer, with the ticks of its events that are in the event queue. -/
structure Consumer where
  em : Clocked
  m_scheduled_wakeups : Finset ℕ := ∅
  events : List ℕ := []

namespace Consumer

def alreadyScheduled (c : Consumer) (time : ℕ) : Bool := decide (time ∈ c.m_scheduled_wakeups)

def scheduleEventAbsolute (c : Consumer) (curTick evt_time : ℕ) :
    Except ConsumerFault Consumer := do
  let c ←
    if c.alreadyScheduled evt_time then
      pure c
    else do
      require (curTick ≤ evt_time) .schedule_in_the_past
      pure { c with
        events := evt_time :: c.events
        m_scheduled_wakeups := insert evt_time c.m_scheduled_wakeups }
  let t := c.em.clockEdge curTick 0
  pure { c with
    em := c.em.update curTick
    m_scheduled_wakeups := c.m_scheduled_wakeups.filter (t ≤ ·) }

def scheduleEvent (c : Consumer) (curTick timeDelta : ℕ) : Except ConsumerFault Consumer :=
  { c with em := c.em.update curTick }.scheduleEventAbsolute curTick
    (c.em.clockEdge curTick timeDelta)

/-- What a request does: one event at most, and the tick is remembered if it is not before the
next clock edge. -/
theorem scheduleEventAbsolute_spec (c : Consumer) (curTick evt_time : ℕ) :
    Ok (fun c' => c'.em = c.em.update curTick
        ∧ c'.m_scheduled_wakeups = (insert evt_time c.m_scheduled_wakeups).filter
            (c.em.clockEdge curTick 0 ≤ ·)
        ∧ c'.events = if evt_time ∈ c.m_scheduled_wakeups then c.events else evt_time :: c.events)
      (fun _ => evt_time < curTick) (c.scheduleEventAbsolute curTick evt_time) := by
  unfold scheduleEventAbsolute alreadyScheduled
  by_cases hmem : evt_time ∈ c.m_scheduled_wakeups
  · simp only [hmem, decide_true, if_true, Finset.insert_eq_of_mem]
    exact ⟨rfl, rfl, rfl⟩
  · simp only [hmem, decide_false, Bool.false_eq_true, if_false]
    refine Ok.require_bind (fun h => ?_) (fun _ => ⟨rfl, rfl, rfl⟩)
    simpa using h

/-- The consumers of the network model are these, with sets of events. -/
theorem scheduleEventAbsolute_garnet (c : Consumer) (curTick evt_time : ℕ) :
    Ok (fun c' => (⟨c'.m_scheduled_wakeups, c'.events.toFinset⟩ : Garnet.Consumer)
        = Garnet.Consumer.scheduleEventAbsolute ⟨c.m_scheduled_wakeups, c.events.toFinset⟩
            (c.em.clockEdge curTick 0) evt_time)
      (fun _ => evt_time < curTick) (c.scheduleEventAbsolute curTick evt_time) := by
  refine (c.scheduleEventAbsolute_spec curTick evt_time).imp (fun c' hc' => ?_)
  obtain ⟨-, hwakeups, hevents⟩ := hc'
  rw [hwakeups, hevents, Garnet.Consumer.scheduleEventAbsolute]
  by_cases hmem : evt_time ∈ c.m_scheduled_wakeups
  · simp only [hmem, if_true, Finset.insert_eq_of_mem]
  · simp only [hmem, if_false, toFinset_cons]

end Consumer

/-! ## Runs -/

/-- A consumer in a simulation, with the ticks at which it was woken up and those that were
asked for. -/
structure Sim extends Consumer where
  curTick : ℕ
  wakeups : List ℕ := []
  requested : List ℕ := []

/-- What happens to a consumer. Requests from inside `wakeup` come after it at the same tick. -/
inductive Happening
  | scheduleEvent (timeDelta : ℕ)
  | scheduleEventAbsolute (evt_time : ℕ)
  /-- The event queue runs the event of the current tick. -/
  | wakeup
  /-- The event queue goes on to events of a later tick. -/
  | advance (tick : ℕ)
  /-- `SrcClockDomain::clockPeriod`, which refuses a period of zero. -/
  | clockPeriod (clock_period : ℕ)

/-- A request that succeeds is noted. -/
def Sim.request (s : Sim) (evt_time : ℕ) (c : Except ConsumerFault Consumer) :
    Except ConsumerFault Sim := do
  let c ← c
  pure { s with toConsumer := c, requested := evt_time :: s.requested }

/-- Requests are for clock edges in the future, and time does not pass an event. -/
def simulation : Machine Sim Happening ConsumerFault where
  enabled s
    | .scheduleEvent timeDelta => s.curTick < s.em.clockEdge s.curTick timeDelta
    | .scheduleEventAbsolute evt_time => decide (s.curTick < evt_time
        ∧ s.em.clockEdge s.curTick 0 ≤ evt_time
        ∧ s.em.clockPeriod ∣ evt_time - s.em.clockEdge s.curTick 0)
    | .wakeup => decide (s.curTick ∈ s.events)
    | .advance tick => decide (s.curTick ≤ tick ∧ ∀ t ∈ s.events, tick ≤ t)
    | .clockPeriod clock_period => clock_period != 0
  exec s
    | .scheduleEvent timeDelta =>
      s.request (s.em.clockEdge s.curTick timeDelta)
        (s.toConsumer.scheduleEvent s.curTick timeDelta)
    | .scheduleEventAbsolute evt_time =>
      s.request evt_time (s.toConsumer.scheduleEventAbsolute s.curTick evt_time)
    | .wakeup => pure { s with
        events := s.events.erase s.curTick
        wakeups := s.curTick :: s.wakeups }
    | .advance tick => pure { s with curTick := tick }
    | .clockPeriod clock_period => pure { s with
        em := { s.em.update s.curTick with clockPeriod := clock_period } }

/-- Every tick asked for has one event, which has run or is pending; and a tick that can still be
asked for is remembered if it has been. -/
structure Coalesced (s : Sim) : Prop where
  nodup : (s.wakeups ++ s.events).Nodup
  mem : ∀ t, t ∈ s.wakeups ++ s.events ↔ t ∈ s.requested
  due : ∀ t ∈ s.events, s.curTick ≤ t
  past : ∀ t ∈ s.wakeups, t ≤ s.curTick
  remembered : ∀ t ∈ s.requested, s.em.tick ≤ t → t ∈ s.m_scheduled_wakeups
  asked : ∀ t ∈ s.m_scheduled_wakeups, t ∈ s.requested

namespace Coalesced

variable {s s' : Sim} {t : ℕ}

theorem clock (h : Coalesced s) {em : Clocked} (hle : s.em.tick ≤ em.tick) :
    Coalesced { s with em := em } :=
  { h with remembered := fun t ht hedge => h.remembered t ht (le_trans hle hedge) }

theorem request (h : Coalesced s) (hedge : s.em.tick ≤ t) (hnow : s.curTick ≤ t) :
    Ok Coalesced ⊥ (s.request t (s.toConsumer.scheduleEventAbsolute s.curTick t)) := by
  refine Ok.bind ((s.toConsumer.scheduleEventAbsolute_spec s.curTick t).mono (fun c' hc' => hc')
    (fun _ hlt => absurd hnow (not_le.mpr hlt))) (fun c' hc' => ?_)
  obtain ⟨hem, hwakeups, hevents⟩ := hc'
  have hasked : ∀ u ∈ c'.m_scheduled_wakeups, u ∈ t :: s.requested := by
    intro u hu
    rw [hwakeups, Finset.mem_filter, Finset.mem_insert] at hu
    exact mem_cons.mpr (hu.1.imp_right (h.asked u))
  have hremembered : ∀ u ∈ t :: s.requested, c'.em.tick ≤ u → u ∈ c'.m_scheduled_wakeups := by
    intro u hu hle
    rw [hem] at hle
    rw [hwakeups, Finset.mem_filter, Finset.mem_insert]
    refine ⟨(mem_cons.mp hu).imp_right (fun hu => h.remembered u hu ?_), hle⟩
    exact le_trans (s.em.tick_le_update s.curTick) hle
  by_cases hmem : t ∈ s.m_scheduled_wakeups
  · rw [if_pos hmem] at hevents
    refine ⟨hevents ▸ h.nodup, fun u => ?_, hevents ▸ h.due, h.past, hremembered, hasked⟩
    rw [hevents, h.mem, mem_cons]
    exact (or_iff_right_of_imp (fun hu => hu ▸ h.asked t hmem)).symm
  · -- not remembered, so not asked for before
    have hnew : t ∉ s.wakeups ++ s.events := fun ht =>
      hmem (h.remembered t ((h.mem t).mp ht) hedge)
    have hperm : (s.wakeups ++ c'.events).Perm (t :: (s.wakeups ++ s.events)) := by
      rw [hevents, if_neg hmem]
      exact perm_middle
    refine ⟨hperm.nodup_iff.mpr (nodup_cons.mpr ⟨hnew, h.nodup⟩), fun u => ?_, ?_, h.past,
      hremembered, hasked⟩
    · rw [hperm.mem_iff, mem_cons, h.mem, mem_cons]
    · rw [hevents, if_neg hmem]
      exact forall_mem_cons.mpr ⟨hnow, h.due⟩

/-- **One step.** -/
theorem step (h : Coalesced s) {e : Happening} (he : simulation.enabled s e = true) :
    Ok Coalesced ⊥ (simulation.exec s e) := by
  cases e with
  | scheduleEvent timeDelta =>
    have hlt : s.curTick < s.em.clockEdge s.curTick timeDelta := of_decide_eq_true he
    -- the clock was updated for the tick of the request
    have hclock := h.clock (s.em.tick_le_update s.curTick)
    exact hclock.request (Nat.le_add_right _ _) hlt.le
  | scheduleEventAbsolute evt_time =>
    obtain ⟨hlt, hedge, -⟩ := of_decide_eq_true he
    exact h.request (le_trans (s.em.tick_le_update s.curTick) hedge) hlt.le
  | wakeup =>
    -- the event moves from one list to the other
    have hperm : (s.curTick :: s.wakeups ++ s.events.erase s.curTick).Perm
        (s.wakeups ++ s.events) :=
      perm_middle.symm.trans ((perm_cons_erase (of_decide_eq_true he)).symm.append_left _)
    exact ⟨hperm.nodup_iff.mpr h.nodup, fun t => hperm.mem_iff.trans (h.mem t),
      fun t ht => h.due t (mem_of_mem_erase ht), forall_mem_cons.mpr ⟨le_rfl, h.past⟩,
      h.remembered, h.asked⟩
  | advance tick =>
    obtain ⟨hle, hdue⟩ := of_decide_eq_true he
    exact { h with due := hdue, past := fun t ht => le_trans (h.past t ht) hle }
  | clockPeriod clock_period => exact h.clock (s.em.tick_le_update s.curTick)

theorem run (h : Coalesced s) {hs : List Happening} (hrun : simulation.run s hs = some s') :
    Coalesced s' :=
  Machine.run_keeps (fun _ _ _ h hstep => (h.step hstep.1).elim hstep.2) h hrun

/-- **Time can pass.** Without further requests the event queue gets past any tick. -/
theorem passes (h : Coalesced s) (tick : ℕ) : ∃ hs s', simulation.run s hs = some s'
    ∧ s'.requested = s.requested ∧ tick < s'.curTick := by
  -- by induction on the number of pending events, the earliest of which runs first
  induction hn : s.events.length generalizing s with
  | zero =>
    have hstep : simulation.Step s (.advance (s.curTick + tick + 1))
        { s with curTick := s.curTick + tick + 1 } := by
      refine ⟨decide_eq_true ⟨by omega, ?_⟩, rfl⟩
      simp [length_eq_zero_iff.mp hn]
    exact ⟨[_], _, Machine.run_cons_of_step hstep [], rfl, by dsimp only; omega⟩
  | succ n ih =>
    have hne : s.events.toFinset.Nonempty := by
      rw [toFinset_nonempty_iff, ← length_pos_iff]
      omega
    obtain ⟨first, hmem, hfirst⟩ := Finset.exists_min_image s.events.toFinset id hne
    simp only [mem_toFinset, id_eq] at hmem hfirst
    have hadvance : simulation.Step s (.advance first) { s with curTick := first } :=
      ⟨decide_eq_true ⟨h.due first hmem, hfirst⟩, rfl⟩
    have hwakeup : simulation.Step { s with curTick := first } .wakeup
        { s with
          curTick := first
          events := s.events.erase first
          wakeups := first :: s.wakeups } :=
      ⟨decide_eq_true hmem, rfl⟩
    have hrun := (Machine.run_cons_of_step hadvance [.wakeup]).trans
      (Machine.run_cons_of_step hwakeup [])
    obtain ⟨hs, s', hrest, hreq, hpast⟩ := ih (h.run hrun) (by
      rw [length_erase_of_mem hmem, hn, Nat.add_sub_cancel])
    refine ⟨[.advance first, .wakeup] ++ hs, s', ?_, hreq, hpast⟩
    rw [Machine.run_append, hrun]
    exact hrest

end Coalesced

/-- **Wakeups are coalesced and never lost.** Take any run in which the requests are for clock
edges in the future, whether they come from inside `wakeup` or not and whatever the clock domain
does to the period in between. At each tick that has passed, `wakeup` ran once if the tick was
asked for and not at all if it was not; a tick that was asked for and has not passed has run or
has one event pending. Nothing stops the simulation, and time can get past every tick. -/
theorem consumer_wakeups_coalesced (curTick : ℕ) (em : Clocked) (hs : List Happening) (s : Sim)
    (hrun : simulation.run { em := em, curTick := curTick } hs = some s) :
    (∀ t < s.curTick, s.wakeups.count t = if t ∈ s.requested then 1 else 0)
      ∧ (∀ t, s.wakeups.count t + s.events.count t = if t ∈ s.requested then 1 else 0)
      ∧ (∀ t ∈ s.wakeups, t ≤ s.curTick)
      ∧ (∀ e, simulation.enabled s e = true → ∃ s', simulation.exec s e = .ok s')
      ∧ ∀ tick, ∃ rest s', simulation.run s rest = some s' ∧ s'.requested = s.requested
          ∧ tick < s'.curTick := by
  have h : Coalesced s := by
    refine Coalesced.run ⟨?_, ?_, ?_, ?_, ?_, ?_⟩ hrun <;> simp
  have honce : ∀ t, s.wakeups.count t + s.events.count t = if t ∈ s.requested then 1 else 0 := by
    intro t
    rw [← count_append, h.nodup.count]
    simp only [h.mem]
  refine ⟨fun t ht => ?_, honce, h.past, fun e he => ?_, h.passes⟩
  · -- an event of a tick that has passed is not pending
    have hnone : s.events.count t = 0 :=
      count_eq_zero.mpr (fun hmem => absurd (h.due t hmem) (not_le.mpr ht))
    have hcount := honce t
    rwa [hnone] at hcount
  · obtain ⟨s', hexec, -⟩ := (h.step he).returns
    exact ⟨s', hexec⟩

/-- Tick 10 is asked for twice and tick 20 from inside the wakeup at tick 10. -/
def threeRequests : List Happening :=
  [.scheduleEvent 1, .scheduleEventAbsolute 10, .advance 10, .wakeup, .scheduleEvent 1,
   .advance 20, .wakeup, .advance 25]

theorem threeRequests_coalesced :
    ∃ s, simulation.run { em := ⟨0, 10⟩, curTick := 0 } threeRequests = some s
      ∧ s.requested = [20, 10, 10] ∧ s.wakeups.count 10 = 1 ∧ s.wakeups.count 15 = 0 := by
  obtain ⟨s, hrun, hreq, htick⟩ := Machine.exists_of_run_any simulation
    { em := ⟨0, 10⟩, curTick := 0 } threeRequests
    (fun s => s.requested = [20, 10, 10] ∧ s.curTick = 25) (by decide +kernel)
  obtain ⟨hcount, -⟩ := consumer_wakeups_coalesced 0 ⟨0, 10⟩ threeRequests s hrun
  rw [htick, hreq] at hcount
  exact ⟨s, hrun, hreq, hcount 10 (by decide), hcount 15 (by decide)⟩

end Bindu.Ruby
