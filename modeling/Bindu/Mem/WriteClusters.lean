/-
What the write clusters of a byte know about the operations on it.

The operations so far are a list of register operations. `Clustered` relates them to the clusters:
every write is either in a cluster or `Superseded`: a later write was complete before any read that
is under way started, so that no read can return the value any more. The clusters are in order of
time: what is in one cluster is complete before anything in the next one starts.

Writes that start, complete and are aborted keep this relation. That pruning keeps it is the reason
why nothing that a read may still return is thrown away.
-/
import Bindu.Lib.Register
import Bindu.Mem.MemChecker

namespace Bindu.Mem.MemChecker

open Bindu.Lib List

/-! ## One cluster -/

/-- A write that is under way. -/
def Transaction.pending (t : Transaction) : Bool := t.complete == TICK_FUTURE

/-- A cluster that is not marked as complete: `numIncomplete` counts the writes under way and
`completeMax` bounds the others. -/
structure Counting (c : WriteCluster) (now : ℕ) : Prop where
  complete : c.complete = TICK_FUTURE
  start : c.start = TICK_FUTURE ∨ c.start ≤ now
  serials : (c.writes.map Transaction.serial).Nodup
  count : c.numIncomplete = c.writes.countP Transaction.pending
  max_le : c.completeMax ≤ now
  le_max : ∀ t ∈ c.writes, t.pending = false → t.complete ≤ c.completeMax

/-- A cluster that takes writes: without a write under way it is empty. -/
structure Open (c : WriteCluster) (now : ℕ) : Prop extends Counting c now where
  empty : c.numIncomplete = 0 → c.writes = []

/-- A cluster whose writes are all complete. -/
structure Closed (c : WriteCluster) (now : ℕ) : Prop where
  complete : c.complete ≤ now
  nonempty : c.writes ≠ []
  le : ∀ t ∈ c.writes, t.complete ≤ c.complete

theorem Open.new (now : ℕ) : Open {} now where
  complete := rfl
  start := .inl rfl
  serials := nodup_nil
  count := rfl
  empty _ := rfl
  max_le := Nat.zero_le _
  le_max _ ht := absurd ht not_mem_nil

variable {c : WriteCluster} {now now' tick : ℕ}

/-- A cluster whose last write has completed is closed. -/
theorem Counting.close (h : Counting c now) (hne : c.writes ≠ [])
    (hzero : c.numIncomplete = 0) : Closed { c with complete := c.completeMax } now := by
  refine ⟨h.max_le, hne, fun t ht => h.le_max t ht ?_⟩
  have hcount := h.count
  rw [hzero, eq_comm, countP_eq_zero] at hcount
  exact Bool.eq_false_iff.mpr (hcount t ht)

/-- The test at the end of `completeWrite` and `abortWrite`, under the condition `p`. -/
theorem Counting.settle (h : Counting c now) {p : Prop} [Decidable p]
    (hp : p ↔ c.numIncomplete = 0 ∧ c.writes ≠ []) {c' : WriteCluster}
    (hc' : c' = if p then { c with complete := c.completeMax } else c) :
    (Open c' now ∨ Closed c' now) ∧ c'.writes = c.writes ∧ c'.start = c.start := by
  by_cases hcond : p
  · rw [if_pos hcond] at hc'
    obtain ⟨hzero, hne⟩ := hp.mp hcond
    rw [hc']
    exact ⟨.inr (h.close hne hzero), rfl, rfl⟩
  · rw [if_neg hcond] at hc'
    rw [hc']
    refine ⟨.inl ⟨h, fun hzero => ?_⟩, rfl, rfl⟩
    by_contra hne
    exact hcond (hp.mpr ⟨hzero, hne⟩)

theorem Open.mono (h : Open c now) (hle : now ≤ now') :
    Open c now' :=
  { h with start := h.start.imp_right (le_trans · hle), max_le := h.max_le.trans hle }

theorem Closed.mono (h : Closed c now) (hle : now ≤ now') :
    Closed c now' :=
  { h with complete := h.complete.trans hle }

theorem Closed.isComplete (h : Closed c now)
    (hnow : now < TICK_FUTURE) : c.isComplete = true := by
  rw [WriteCluster.isComplete, bne_iff_ne]
  exact ne_of_lt (lt_of_le_of_lt h.complete hnow)

theorem Open.isComplete (h : Open c now) : c.isComplete = false := by
  rw [WriteCluster.isComplete, h.complete, bne_self_eq_false]

theorem Open.startWrite {serial : ℕ} (data : UInt8) (h : Open c now)
    (hnow : now ≤ tick) (hnew : serial ∉ c.writes.map Transaction.serial) :
    Ok (fun c' => Open c' tick ∧ c'.writes = c.writes ++ [⟨serial, tick, TICK_FUTURE, data⟩]
        ∧ c'.start = if c.start = TICK_FUTURE then tick else c.start)
      ⊥ (c.startWrite serial tick data) := by
  have hstart : (if c.start = TICK_FUTURE then tick else c.start) ≤ tick := by
    by_cases hfresh : c.start = TICK_FUTURE
    · rw [if_pos hfresh]
    · rw [if_neg hfresh]
      exact (h.start.resolve_left hfresh).trans hnow
  have hinsert : WriteCluster.insertWrite c.writes ⟨serial, tick, TICK_FUTURE, data⟩
      = c.writes ++ [⟨serial, tick, TICK_FUTURE, data⟩] := by
    rw [WriteCluster.insertWrite, if_neg]
    intro hany
    obtain ⟨u, hu, heq⟩ := any_eq_true.mp hany
    exact hnew (mem_map.mpr ⟨u, hu, of_decide_eq_true heq⟩)
  simp only [WriteCluster.startWrite, h.isComplete, Bool.not_false, require_true, ok_bind, hstart,
    decide_true, WriteCluster.reopen, h.complete, if_true, pure_bind, Ok.pure_iff, hinsert,
    and_true]
  refine ⟨⟨rfl, .inr hstart, ?_, ?_, h.max_le.trans hnow, ?_⟩, ?_⟩
  · rw [map_append, nodup_append]
    refine ⟨h.serials, nodup_singleton _, ?_⟩
    rintro s hs s' hs' rfl
    rw [map_singleton, mem_singleton] at hs'
    rw [hs'] at hs
    exact hnew hs
  · rw [countP_append, ← h.count]
    rfl
  · refine forall_mem_append.2 ⟨h.le_max, forall_mem_singleton.2 fun hdone => ?_⟩
    exact absurd hdone (by simp [Transaction.pending])
  · intro hzero
    exact absurd hzero (Nat.succ_ne_zero _)

/-- The write with this serial, completed. -/
def finishWrite (serial tick : ℕ) (t : Transaction) : Transaction :=
  if t.serial = serial then { t with complete := tick } else t

@[simp] theorem finishWrite_serial (serial tick : ℕ) (t : Transaction) :
    (finishWrite serial tick t).serial = t.serial := by
  rw [finishWrite]
  split <;> rfl

variable {ws : List Transaction} {t : Transaction}

/-- The other writes of a cluster have other serials. -/
theorem split_at_serial (hserials : (ws.map Transaction.serial).Nodup) (ht : t ∈ ws) :
    ∃ l1 l2, ws = l1 ++ t :: l2 ∧ (∀ u ∈ l1, u.serial ≠ t.serial)
      ∧ ∀ u ∈ l2, u.serial ≠ t.serial := by
  obtain ⟨l1, l2, rfl⟩ := append_of_mem ht
  rw [map_append, map_cons, nodup_append, nodup_cons] at hserials
  obtain ⟨-, ⟨hbehind, -⟩, hfront⟩ := hserials
  refine ⟨l1, l2, rfl, fun u hu heq => ?_, fun u hu heq => ?_⟩
  · exact hfront u.serial (mem_map_of_mem hu) t.serial mem_cons_self heq
  · exact hbehind (mem_map.mpr ⟨u, hu, heq⟩)

theorem map_finishWrite {serial : ℕ}
    (h : ∀ u ∈ ws, u.serial ≠ serial) : ws.map (finishWrite serial tick) = ws := by
  conv_rhs => rw [← map_id ws]
  refine map_congr_left (fun u hu => ?_)
  rw [finishWrite, if_neg (h u hu)]
  rfl

/-- Of the writes under way, one leaves when it completes -/
theorem countP_finishWrite
    (hserials : (ws.map Transaction.serial).Nodup) (ht : t ∈ ws) (hpending : t.pending = true)
    (htick : tick < TICK_FUTURE) :
    ws.countP Transaction.pending
      = (ws.map (finishWrite t.serial tick)).countP Transaction.pending + 1 := by
  obtain ⟨l1, l2, rfl, h1, h2⟩ := split_at_serial hserials ht
  have hdone : (finishWrite t.serial tick t).pending = false := by
    rw [finishWrite, if_pos rfl, Transaction.pending, beq_eq_false_iff_ne]
    exact ne_of_lt htick
  rw [map_append, map_cons, map_finishWrite h1, map_finishWrite h2, countP_append,
    countP_append, countP_cons, countP_cons, hpending, hdone]
  simp only [if_true]
  rfl

/-- or is aborted. -/
theorem countP_filter_serial
    (hserials : (ws.map Transaction.serial).Nodup) (ht : t ∈ ws) (hpending : t.pending = true) :
    ws.countP Transaction.pending
      = (ws.filter (fun u => u.serial ≠ t.serial)).countP Transaction.pending + 1 := by
  obtain ⟨l1, l2, rfl, h1, h2⟩ := split_at_serial hserials ht
  have hfilter : ∀ l : List Transaction, (∀ u ∈ l, u.serial ≠ t.serial) →
      l.filter (fun u => u.serial ≠ t.serial) = l :=
    fun l hl => filter_eq_self.mpr (fun u hu => decide_eq_true (hl u hu))
  have hcons : (t :: l2).filter (fun u => u.serial ≠ t.serial) = l2 := by
    rw [filter_cons_of_neg (by simp), hfilter l2 h2]
  rw [filter_append, hfilter l1 h1, hcons, countP_append, countP_append, countP_cons, hpending]
  rfl

theorem Open.completeWrite (h : Open c now)
    (hnow : now ≤ tick) (htick : tick < TICK_FUTURE) (ht : t ∈ c.writes)
    (hpending : t.pending = true) :
    Ok (fun c' => (Open c' tick ∨ Closed c' tick)
        ∧ c'.writes = c.writes.map (finishWrite t.serial tick) ∧ c'.start = c.start)
      ⊥ (c.completeWrite t.serial tick) := by
  obtain ⟨it, hfind⟩ : ∃ it, c.writes.find? (fun u => u.serial = t.serial) = some it :=
    Option.isSome_iff_exists.mp (find?_isSome.mpr ⟨t, ht, decide_eq_true rfl⟩)
  have hit : it = t := by
    refine inj_on_of_nodup_map h.serials (mem_of_find?_eq_some hfind) ht ?_
    simpa using find?_some hfind
  rw [WriteCluster.completeWrite, hfind, hit]
  refine Ok.passes (decide_eq_true (beq_iff_eq.mp hpending)) ?_
  have hcount := countP_finishWrite h.serials ht hpending htick
  have hmax : (if c.completeMax < tick then tick else c.completeMax) = tick := by
    split
    · rfl
    · exact le_antisymm (h.max_le.trans hnow) (by omega)
  have hnext : Counting { c with
      writes := c.writes.map (finishWrite t.serial tick)
      completeMax := if c.completeMax < tick then tick else c.completeMax
      numIncomplete := WriteCluster.decrement c.numIncomplete } tick := by
    refine ⟨h.complete, h.start.imp_right (le_trans · hnow), ?_, ?_, le_of_eq hmax, ?_⟩
    · have hser : Transaction.serial ∘ finishWrite t.serial tick = Transaction.serial :=
        funext (finishWrite_serial t.serial tick)
      rw [map_map, hser]
      exact h.serials
    · rw [WriteCluster.decrement, h.count, hcount, if_neg (Nat.succ_ne_zero _)]
      rfl
    · intro u hu hdone
      obtain ⟨v, hv, rfl⟩ := mem_map.mp hu
      simp only [hmax]
      rw [finishWrite] at hdone ⊢
      by_cases hvt : v.serial = t.serial
      · rw [if_pos hvt]
      · rw [if_neg hvt] at hdone ⊢
        exact (h.le_max v hv hdone).trans (h.max_le.trans hnow)
  have hne : c.writes.map (finishWrite t.serial tick) ≠ [] :=
    fun hnil => ne_nil_of_mem ht (map_eq_nil_iff.mp hnil)
  exact hnext.settle (and_iff_left hne).symm rfl

theorem Open.abortWrite (h : Open c now)
    (ht : t ∈ c.writes) (hpending : t.pending = true) :
    (Open (c.abortWrite t.serial) now ∨ Closed (c.abortWrite t.serial) now)
      ∧ (c.abortWrite t.serial).writes = c.writes.filter (fun u => u.serial ≠ t.serial)
      ∧ (c.abortWrite t.serial).start = c.start := by
  have hany : c.writes.any (fun u => u.serial = t.serial) = true :=
    any_eq_true.mpr ⟨t, ht, decide_eq_true rfl⟩
  have hcount := countP_filter_serial h.serials ht hpending
  have hnext : Counting { c with
      writes := c.writes.filter (fun u => u.serial ≠ t.serial)
      numIncomplete := WriteCluster.decrement c.numIncomplete } now := by
    refine ⟨h.complete, h.start, ?_, ?_, h.max_le, ?_⟩
    · exact h.serials.sublist (filter_sublist.map _)
    · rw [WriteCluster.decrement, h.count, hcount, if_neg (Nat.succ_ne_zero _)]
      rfl
    · exact fun u hu => h.le_max u (mem_of_mem_filter hu)
  rw [WriteCluster.abortWrite, if_pos hany]
  exact hnext.settle (by simp) rfl

/-! ## The operations of a byte -/

/-- An operation on one byte. Its `id` is the serial. -/
abbrev Op := RegOp UInt8

def pendingRead (o : Op) : Bool := !o.write && o.complete.isNone

/-- The operation with this serial completes; a read gets its data with it. -/
def finishOp (serial tick : ℕ) (data : Option UInt8) (o : Op) : Op :=
  if o.id = serial then { o with complete := some tick, data := data.getD o.data } else o

@[simp] theorem finishOp_id (serial tick : ℕ) (data : Option UInt8) (o : Op) :
    (finishOp serial tick data o).id = o.id := by
  rw [finishOp]
  split <;> rfl

@[simp] theorem finishOp_start (serial tick : ℕ) (data : Option UInt8) (o : Op) :
    (finishOp serial tick data o).start = o.start := by
  rw [finishOp]
  split <;> rfl

@[simp] theorem finishOp_write (serial tick : ℕ) (data : Option UInt8) (o : Op) :
    (finishOp serial tick data o).write = o.write := by
  rw [finishOp]
  split <;> rfl

/-- The operations are in the order of their serials and of their start, and in the past. -/
structure Timed (os : List Op) (now : ℕ) : Prop where
  ids : os.Pairwise (fun a b => a.id < b.id)
  starts : os.Pairwise (fun a b => a.start ≤ b.start)
  started : ∀ o ∈ os, o.start ≤ now
  completed : ∀ o ∈ os, ∀ c, o.complete = some c → o.start ≤ c ∧ c ≤ now
  future : now < TICK_FUTURE

namespace Timed

variable {os : List Op}

theorem mono (h : Timed os now) (hnow : now ≤ tick) (htick : tick < TICK_FUTURE) : Timed os tick :=
  { h with
    started := fun o ho => (h.started o ho).trans hnow
    completed := fun o ho c hc => (h.completed o ho c hc).imp_right (le_trans · hnow)
    future := htick }

theorem eq_of_id (h : Timed os now) {a b : Op} (ha : a ∈ os) (hb : b ∈ os) (hid : a.id = b.id) :
    a = b := by
  have hnodup : (os.map RegOp.id).Nodup := pairwise_map.mpr (h.ids.imp (fun hlt => ne_of_lt hlt))
  exact inj_on_of_nodup_map hnodup ha hb hid

theorem add (h : Timed os now) (hnow : now ≤ tick) (htick : tick < TICK_FUTURE) {o : Op}
    (hid : ∀ x ∈ os, x.id < o.id) (hstart : o.start = tick) (hpending : o.complete = none) :
    Timed (os ++ [o]) tick := by
  have hold := h.mono hnow htick
  refine ⟨pairwise_concat.2 ⟨h.ids, hid⟩, ?_, ?_, ?_, htick⟩
  · rw [pairwise_concat, hstart]
    exact ⟨h.starts, hold.started⟩
  · exact forall_mem_append.2 ⟨hold.started, forall_mem_singleton.2 hstart.le⟩
  · exact forall_mem_append.2 ⟨hold.completed, by simp [hpending]⟩

theorem finish (h : Timed os now) (hnow : now ≤ tick) (htick : tick < TICK_FUTURE) (serial : ℕ)
    (data : Option UInt8) : Timed (os.map (finishOp serial tick data)) tick := by
  refine ⟨?_, ?_, ?_, ?_, htick⟩
  · rw [pairwise_map]
    simpa using h.ids
  · rw [pairwise_map]
    simpa using h.starts
  · refine forall_mem_map.2 fun x hx => ?_
    rw [finishOp_start]
    exact (h.started x hx).trans hnow
  · refine forall_mem_map.2 fun x hx c hc => ?_
    rw [finishOp_start]
    rw [finishOp] at hc
    by_cases hid : x.id = serial
    · rw [if_pos hid, Option.some.injEq] at hc
      rw [← hc]
      exact ⟨(h.started x hx).trans hnow, le_rfl⟩
    · rw [if_neg hid] at hc
      exact (h.mono hnow htick).completed x hx c hc

theorem filter (h : Timed os now) (p : Op → Bool) : Timed (os.filter p) now where
  ids := h.ids.filter p
  starts := h.starts.filter p
  started o ho := h.started o (mem_of_mem_filter ho)
  completed o ho := h.completed o (mem_of_mem_filter ho)
  future := h.future

end Timed

/-! ## How the operations grow

An operation that has completed stays as it is. One that is under way may complete, and a write may
be aborted; later operations start later. -/

/-- `o` as it is later. -/
structure Same (o o' : Op) : Prop where
  id : o.id = o'.id
  write : o.write = o'.write
  start : o.start = o'.start
  data : o.write = true → o.data = o'.data
  done : o.complete ≠ none → o' = o

theorem Same.refl (o : Op) : Same o o := ⟨rfl, rfl, rfl, fun _ => rfl, fun _ => rfl⟩

/-- A read that is under way was so before. -/
theorem Same.pendingRead {o o' : Op} (h : Same o o') (hpending : pendingRead o' = true) :
    pendingRead o = true := by
  rw [MemChecker.pendingRead, Bool.and_eq_true, Bool.not_eq_true'] at hpending ⊢
  refine ⟨h.write.trans hpending.1, ?_⟩
  -- had it been complete, it would be now
  by_contra hdone
  rw [Option.isNone_iff_eq_none] at hdone
  rw [h.done hdone, Option.isNone_iff_eq_none] at hpending
  exact hdone hpending.2

/-- `os` at time `now` has become `os'`. -/
structure Grown (os os' : List Op) (now : ℕ) : Prop where
  later : ∀ o' ∈ os', (∃ o ∈ os, Same o o') ∨ now ≤ o'.start
  kept : ∀ o ∈ os, o.complete ≠ none → o ∈ os'

namespace Grown

variable {os os' : List Op}

theorem refl (os : List Op) (now : ℕ) : Grown os os now :=
  ⟨fun o ho => .inl ⟨o, ho, Same.refl o⟩, fun _ ho _ => ho⟩

/-- What was over before every read that is under way still is. -/
theorem le_start (h : Grown os os' now) {k : ℕ} (hk : k ≤ now)
    (hreads : ∀ o ∈ os, pendingRead o = true → k ≤ o.start) :
    ∀ o ∈ os', pendingRead o = true → k ≤ o.start := by
  intro o' ho' hpending
  rcases h.later o' ho' with ⟨o, ho, hsame⟩ | hlater
  · rw [← hsame.start]
    exact hreads o ho (hsame.pendingRead hpending)
  · exact hk.trans hlater

theorem trans {os'' : List Op} (h : Grown os os' now) (h' : Grown os' os'' now')
    (hnow : now ≤ now') : Grown os os'' now := by
  constructor
  · intro o'' ho''
    rcases h'.later o'' ho'' with ⟨o', ho', hsame'⟩ | hlater
    · rcases h.later o' ho' with ⟨o, ho, hsame⟩ | hlater
      · refine .inl ⟨o, ho, hsame.id.trans hsame'.id, hsame.write.trans hsame'.write,
          hsame.start.trans hsame'.start, fun hw => ?_, fun hdone => ?_⟩
        · exact (hsame.data hw).trans (hsame'.data (hsame.write ▸ hw))
        · have ho := hsame.done hdone
          subst ho
          exact hsame'.done hdone
      · rw [hsame'.start] at hlater
        exact .inr hlater
    · exact .inr (hnow.trans hlater)
  · intro o ho hdone
    exact h'.kept o (h.kept o ho hdone) hdone

theorem add {o : Op} (hnow : now ≤ o.start) : Grown os (os ++ [o]) now := by
  refine ⟨forall_mem_append.2 ⟨(refl os now).later, ?_⟩, fun o ho _ => mem_append_left _ ho⟩
  exact forall_mem_singleton.2 (.inr hnow)

theorem id_ne_of_complete {o r : Op} (hids : ∀ o ∈ os, o.id = r.id → o = r)
    (hpending : r.complete = none) (ho : o ∈ os) (hdone : o.complete ≠ none) : o.id ≠ r.id := by
  intro hid
  rw [hids o ho hid] at hdone
  exact hdone hpending

/-- The operation that completes was under way. -/
theorem finish {r : Op} (hids : ∀ o ∈ os, o.id = r.id → o = r) (hpending : r.complete = none)
    (data : Option UInt8) (hdata : r.write = true → data = none) (tick : ℕ) :
    Grown os (os.map (finishOp r.id tick data)) now := by
  have hdone : ∀ o ∈ os, o.complete ≠ none → finishOp r.id tick data o = o :=
    fun o ho hdone => if_neg (id_ne_of_complete hids hpending ho hdone)
  refine ⟨forall_mem_map.2 fun o ho => ?_, fun o ho h => mem_map.mpr ⟨o, ho, hdone o ho h⟩⟩
  refine .inl ⟨o, ho, by simp, by simp, by simp, fun hw => ?_, hdone o ho⟩
  rw [finishOp]
  by_cases hid : o.id = r.id
  · have heq := hids o ho hid
    rw [if_pos hid, hdata (heq ▸ hw)]
    rfl
  · rw [if_neg hid]

/-- So was the write that is aborted. -/
theorem abort {w : Op} (hids : ∀ o ∈ os, o.id = w.id → o = w) (hpending : w.complete = none) :
    Grown os (os.filter (fun o => o.id ≠ w.id)) now := by
  constructor
  · exact fun o ho => .inl ⟨o, mem_of_mem_filter ho, Same.refl o⟩
  · intro o ho hdone
    exact mem_filter.mpr ⟨ho, decide_eq_true (id_ne_of_complete hids hpending ho hdone)⟩

end Grown

/-! ## Writes that no read can return any more -/

/-- A write that was complete before every read that is under way or is still to come. -/
structure Settled (os : List Op) (now : ℕ) (w : Op) : Prop where
  mem : w ∈ os
  write : w.write = true
  before : ∃ k, w.complete = some k ∧ k ≤ now ∧ ∀ o ∈ os, pendingRead o = true → k ≤ o.start

/-- A settled write came after `o`. -/
def Superseded (os : List Op) (now : ℕ) (o : Op) : Prop :=
  ∃ w, Settled os now w ∧ w ≠ o ∧ o.Precedes w

variable {os os' : List Op} {o : Op}

theorem Settled.grown {w : Op} (h : Settled os now w)
    (hgrown : Grown os os' now) (hnow : now ≤ now') : Settled os' now' w := by
  obtain ⟨k, hk, hkn, hreads⟩ := h.before
  exact ⟨hgrown.kept w h.mem (by simp [hk]), h.write, k, hk, hkn.trans hnow,
    hgrown.le_start hkn hreads⟩

theorem Superseded.grown (h : Superseded os now o)
    (hgrown : Grown os os' now) (hnow : now ≤ now') : Superseded os' now' o := by
  obtain ⟨w, hw, hne, hprec⟩ := h
  exact ⟨w, hw.grown hgrown hnow, hne, hprec⟩

/-- A cluster that was complete before every read that is under way or is still to come. -/
structure SettledCluster (os : List Op) (now : ℕ) (c : WriteCluster) : Prop
    extends Closed c now where
  before : ∀ o ∈ os, pendingRead o = true → c.complete ≤ o.start

theorem SettledCluster.grown
    (h : SettledCluster os now c) (hgrown : Grown os os' now) (hnow : now ≤ now') :
    SettledCluster os' now' c :=
  ⟨h.toClosed.mono hnow, hgrown.le_start h.complete h.before⟩

/-! ## The clusters of a byte -/

/-- The entry of a write in its cluster. -/
def writeEntry (o : Op) : Transaction := ⟨o.id, o.start, o.complete.getD TICK_FUTURE, o.data⟩

theorem writeEntry_pending (h : Timed os now) (ho : o ∈ os) :
    (writeEntry o).pending = true ↔ o.complete = none := by
  rw [Transaction.pending, beq_iff_eq, writeEntry]
  cases hc : o.complete with
  | none => simp
  | some c =>
    have := lt_of_le_of_lt (h.completed o ho c hc).2 h.future
    simp [ne_of_lt this]

theorem writeEntry_finishOp (serial tick : ℕ) (o : Op) :
    writeEntry (finishOp serial tick none o) = finishWrite serial tick (writeEntry o) := by
  rw [finishOp, finishWrite]
  by_cases hid : o.id = serial
  · rw [if_pos hid, if_pos (show (writeEntry o).serial = serial from hid)]
    rfl
  · rw [if_neg hid, if_neg (show ¬ (writeEntry o).serial = serial from hid)]

/-- An entry that was complete by a tick of the past. -/
theorem complete_of_writeEntry_le (h : Timed os now)
    (hle : (writeEntry o).complete ≤ tick) (htick : tick ≤ now) :
    ∃ c, o.complete = some c ∧ c ≤ tick := by
  rw [writeEntry] at hle
  cases hc : o.complete with
  | none =>
    rw [hc] at hle
    exact absurd (hle.trans htick) (not_le.mpr h.future)
  | some c =>
    rw [hc] at hle
    exact ⟨c, rfl, hle⟩

/-- The clusters hold the writes of the byte, except superseded ones. All but the last are closed,
and they are in order of time. -/
structure Clustered (cs : List WriteCluster) (os : List Op) (now : ℕ) : Prop where
  shape : (∀ c ∈ cs, Closed c now)
    ∨ ∃ done c, cs = done ++ [c] ∧ (∀ d ∈ done, Closed d now) ∧ Open c now
  entries : ∀ c ∈ cs, ∀ t ∈ c.writes, ∃ o ∈ os, o.write = true ∧ writeEntry o = t
  present : ∀ o ∈ os, o.write = true → (∃ c ∈ cs, writeEntry o ∈ c.writes) ∨ Superseded os now o
  order : cs.Pairwise (fun c d => ∀ t ∈ c.writes, ∀ u ∈ d.writes,
    t.complete ≤ u.start ∧ t.serial ≠ u.serial)

namespace Clustered

variable {cs done : List WriteCluster} {c' : WriteCluster}

theorem nil (now : ℕ) : Clustered [] [] now where
  shape := .inl (fun _ hc => absurd hc not_mem_nil)
  entries _ hc := absurd hc not_mem_nil
  present _ ho := absurd ho not_mem_nil
  order := Pairwise.nil

theorem grown (h : Clustered cs os now) (hgrown : Grown os os' now) (hnow : now ≤ now')
    (hwrites : ∀ o, o.write = true → (o ∈ os' ↔ o ∈ os)) : Clustered cs os' now' := by
  refine ⟨?_, ?_, ?_, h.order⟩
  · refine h.shape.imp (fun hc c hmem => (hc c hmem).mono hnow) ?_
    rintro ⟨done, c, rfl, hdone, hopen⟩
    exact ⟨done, c, rfl, fun d hd => (hdone d hd).mono hnow, hopen.mono hnow⟩
  · intro c hc t ht
    obtain ⟨o, ho, hw, hentry⟩ := h.entries c hc t ht
    exact ⟨o, (hwrites o hw).mpr ho, hw, hentry⟩
  · intro o ho hw
    refine (h.present o ((hwrites o hw).mp ho) hw).imp_right ?_
    exact fun hsup => hsup.grown hgrown hnow

/-- The cluster that `getIncompleteWriteCluster` returns is open, and the ones before it are
closed. A new cluster behind them changes nothing. -/
theorem target {tr : ByteTracker} (h : Clustered tr.writeClusters os now)
    (hnow : now < TICK_FUTURE) :
    (∀ d ∈ tr.getIncompleteWriteCluster.1, Closed d now) ∧ Open tr.getIncompleteWriteCluster.2 now
      ∧ Clustered (tr.getIncompleteWriteCluster.1 ++ [tr.getIncompleteWriteCluster.2]) os now
      ∧ (tr.getIncompleteWriteCluster = (tr.writeClusters, {}) ∨ tr.writeClusters
          = tr.getIncompleteWriteCluster.1 ++ [tr.getIncompleteWriteCluster.2]) := by
  rcases h.shape with hclosed | ⟨done, c, hcs, hdone, hopen⟩
  · have htarget : tr.getIncompleteWriteCluster = (tr.writeClusters, {}) := by
      rw [ByteTracker.getIncompleteWriteCluster]
      cases hlast : tr.writeClusters.getLast? with
      | none => rfl
      | some c =>
        have hc := hclosed c (mem_of_getLast? hlast)
        simp [hc.isComplete hnow]
    rw [htarget]
    refine ⟨hclosed, Open.new now, ?_, .inl rfl⟩
    refine ⟨.inr ⟨_, _, rfl, hclosed, Open.new now⟩, ?_, ?_, ?_⟩
    · exact forall_mem_append.2 ⟨h.entries, forall_mem_singleton.2 nofun⟩
    · intro o ho hw
      refine (h.present o ho hw).imp_left ?_
      rintro ⟨c, hc, hmem⟩
      exact ⟨c, mem_append_left _ hc, hmem⟩
    · exact pairwise_concat.2 ⟨h.order, fun _ _ _ _ => nofun⟩
  · have htarget : tr.getIncompleteWriteCluster = (done, c) := by
      rw [ByteTracker.getIncompleteWriteCluster, hcs]
      simp [hopen.isComplete]
    rw [htarget]
    rw [hcs] at h
    exact ⟨hdone, hopen, h, .inr hcs⟩

/-- The last cluster changes, and the operations with it. The writes in the other clusters have
completed and stay. -/
theorem replaceLast (h : Clustered (done ++ [c]) os now) (hgrown : Grown os os' now)
    (hnow : now ≤ now') (hdone : ∀ d ∈ done, Closed d now) (htimed : Timed os now)
    (hc' : Open c' now' ∨ Closed c' now')
    (hentries : ∀ t ∈ c'.writes, ∃ o ∈ os', o.write = true ∧ writeEntry o = t)
    (hpresent : ∀ o ∈ os', o.write = true → writeEntry o ∈ c'.writes ∨ o ∈ os)
    (hstart : ∀ u ∈ c'.writes, (∃ t ∈ c.writes, u.start = t.start ∧ u.serial = t.serial)
      ∨ now ≤ u.start ∧ ∀ o ∈ os, o.id ≠ u.serial)
    (hstays : ∀ o ∈ os', writeEntry o ∈ c.writes → writeEntry o ∈ c'.writes) :
    Clustered (done ++ [c']) os' now' := by
  have hclosed : ∀ d ∈ done, Closed d now' := fun d hd => (hdone d hd).mono hnow
  obtain ⟨horder, hbetween⟩ := pairwise_concat.1 h.order
  refine ⟨?_, ?_, ?_, ?_⟩
  · rcases hc' with hopen | hclose
    · exact .inr ⟨done, c', rfl, hclosed, hopen⟩
    · exact .inl (forall_mem_append.2 ⟨hclosed, forall_mem_singleton.2 hclose⟩)
  · refine forall_mem_append.2 ⟨fun d hd t ht => ?_, forall_mem_singleton.2 hentries⟩
    obtain ⟨o, ho, hw, hentry⟩ := h.entries d (mem_append_left _ hd) t ht
    refine ⟨o, hgrown.kept o ho ?_, hw, hentry⟩
    -- what is in a closed cluster has completed
    have hle := ((hdone d hd).le t ht).trans (hdone d hd).complete
    rw [← hentry] at hle
    obtain ⟨k, hk, -⟩ := complete_of_writeEntry_le htimed hle le_rfl
    simp [hk]
  · intro o ho hw
    rcases hpresent o ho hw with hmem | hold
    · exact .inl ⟨c', mem_append_right _ mem_cons_self, hmem⟩
    · rcases h.present o hold hw with ⟨d, hd, hmem⟩ | hsup
      · rcases mem_append.mp hd with hd | hd
        · exact .inl ⟨d, mem_append_left _ hd, hmem⟩
        · rw [mem_singleton.mp hd] at hmem
          exact .inl ⟨c', mem_append_right _ mem_cons_self, hstays o ho hmem⟩
      · exact .inr (hsup.grown hgrown hnow)
  · refine pairwise_concat.2 ⟨horder, fun d hd t ht u hu => ?_⟩
    rcases hstart u hu with ⟨v, hv, hvs, hvi⟩ | ⟨hlater, hnew⟩
    · rw [hvs, hvi]
      exact hbetween d hd t ht v hv
    · refine ⟨(((hdone d hd).le t ht).trans (hdone d hd).complete).trans hlater, ?_⟩
      obtain ⟨o, ho, -, hentry⟩ := h.entries d (mem_append_left _ hd) t ht
      rw [← hentry]
      exact hnew o ho

/-- Clusters before one that was complete before every read still to be checked can go. -/
theorem prune (h : Clustered cs os now) (htimed : Timed os now) {dropped rest : List WriteCluster}
    (hcs : cs = dropped ++ c :: rest) {before : ℕ} (hbefore : before ≤ now)
    (hreads : ∀ o ∈ os, pendingRead o = true → before ≤ o.start)
    (hstop : dropped = [] ∨ c.complete < before) :
    Clustered (c :: rest) os now ∧ (dropped = [] ∨ SettledCluster os now c) := by
  rcases hstop with rfl | hlt
  · rw [nil_append] at hcs
    rw [hcs] at h
    exact ⟨h, .inl rfl⟩
  · subst hcs
    have hmem : ∀ d ∈ c :: rest, d ∈ dropped ++ c :: rest := fun d hd => mem_append_right _ hd
    have hcmem := hmem c mem_cons_self
    have hclosed : Closed c now := by
      rcases h.shape with hall | ⟨done, d, heq, hdone, hopen⟩
      · exact hall c hcmem
      · rw [heq] at hcmem
        rcases mem_append.mp hcmem with hc | hc
        · exact hdone c hc
        · rw [mem_singleton.mp hc, hopen.complete] at hlt
          exact absurd (hlt.le.trans hbefore) (not_le.mpr htimed.future)
    -- any write of this cluster is settled
    obtain ⟨u, rest', hwrites⟩ := exists_cons_of_ne_nil hclosed.nonempty
    have hu : u ∈ c.writes := by
      rw [hwrites]
      exact mem_cons_self
    obtain ⟨w, hw, hwrite, hentry⟩ := h.entries c hcmem u hu
    have hule : (writeEntry w).complete ≤ c.complete := by
      rw [hentry]
      exact hclosed.le u hu
    obtain ⟨k, hk, hkc⟩ := complete_of_writeEntry_le htimed hule hclosed.complete
    have hsettled : Settled os now w :=
      ⟨hw, hwrite, k, hk, hkc.trans hclosed.complete,
        fun o ho hp => (hkc.trans hlt.le).trans (hreads o ho hp)⟩
    refine ⟨⟨?_, ?_, ?_, ?_⟩, .inr ⟨hclosed, fun o ho hp => hlt.le.trans (hreads o ho hp)⟩⟩
    · rcases h.shape with hall | ⟨done, d, heq, hdone, hopen⟩
      · exact .inl (fun e he => hall e (hmem e he))
      · obtain ⟨init, last, hinit⟩ := (eq_nil_or_concat' (c :: rest)).resolve_left (by simp)
        rw [hinit, ← append_assoc] at heq
        obtain ⟨hsplit, hlast⟩ := append_inj' heq rfl
        refine .inr ⟨init, d, ?_, fun e he => hdone e ?_, hopen⟩
        · rw [hinit, hlast]
        · rw [← hsplit]
          exact mem_append_right _ he
    · exact fun d hd => h.entries d (hmem d hd)
    · intro o ho hw'
      rcases h.present o ho hw' with ⟨d, hd, hmem'⟩ | hsup
      · rcases mem_append.mp hd with hd | hd
        · -- a dropped write: it came before the settled one
          obtain ⟨hle, hne⟩ := (pairwise_append.mp h.order).2.2 d hd c mem_cons_self
            (writeEntry o) hmem' u hu
          rw [← hentry] at hle hne
          refine .inr ⟨w, hsettled, ?_, ?_⟩
          · rintro rfl
            exact hne rfl
          · exact complete_of_writeEntry_le htimed hle (htimed.started w hw)
        · exact .inl ⟨d, hd, hmem'⟩
      · exact .inr hsup
    · exact (pairwise_append.mp h.order).2.1

end Clustered

end Bindu.Mem.MemChecker
