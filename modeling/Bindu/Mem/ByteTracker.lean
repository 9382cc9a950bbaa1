/-
What a byte tracker knows about the operations of its byte, and that it explains every read.

`Tracks` relates the tracker to the operations so far: the reads under way are in
`outstandingReads`, the observations are completed reads, the writes are in the clusters. Every
operation of the tracker keeps the relation. When a read completes whose value fits a linearizable
history, the value is found: by a write in the clusters, by the last observation, or because nothing
is known about the byte.
-/
import Bindu.Mem.WriteClusters

namespace Bindu.Mem.MemChecker

open Bindu.Lib List

/-- The entry of a read that is under way. -/
def readEntry (o : Op) : Transaction := ⟨o.id, o.start, TICK_FUTURE, DATA_INITIAL⟩

/-- An observation: the initial one, or a read that has completed. -/
def Observed (os : List Op) (t : Transaction) : Prop :=
  t = ⟨SERIAL_INITIAL, TICK_INITIAL, TICK_INITIAL, DATA_INITIAL⟩
    ∨ ∃ o ∈ os, o.write = false ∧ o.complete = some t.complete ∧ o.start = t.start ∧ o.data = t.data

/-- `first` is the tick at which the first write started. The first cluster is as old, unless it
took the place of older ones. -/
structure Headed (cs : List WriteCluster) (os : List Op) (now : ℕ) (first : Option ℕ) : Prop where
  head : ∀ c, cs.head? = some c →
    (∃ t, first = some t ∧ c.start ≤ t ∧ t < TICK_FUTURE) ∨ SettledCluster os now c
  empty : cs = [] → first = none

/-- The tracker knows the operations `os` of its byte. -/
structure Tracks (tr : ByteTracker) (os : List Op) (now : ℕ) (first : Option ℕ) : Prop where
  timed : Timed os now
  reads : tr.outstandingReads = (os.filter pendingRead).map readEntry
  observed : ∀ t ∈ tr.readObservations, Observed os t
  oldest : ∀ t, tr.readObservations.head? = some t →
    t.complete ≤ now ∧ ∀ o ∈ os, pendingRead o = true → t.complete ≤ o.start
  nonempty : tr.readObservations ≠ []
  clusters : Clustered tr.writeClusters os now
  headed : Headed tr.writeClusters os now first

theorem Headed.grown {cs : List WriteCluster} {os os' : List Op} {now now' : ℕ}
    {first : Option ℕ} (h : Headed cs os now first) (hgrown : Grown os os' now)
    (hnow : now ≤ now') : Headed cs os' now' first where
  head c hc := (h.head c hc).imp_right (·.grown hgrown hnow)
  empty := h.empty

theorem Observed.grown {os os' : List Op} {now : ℕ} {t : Transaction} (h : Observed os t)
    (hgrown : Grown os os' now) : Observed os' t := by
  refine h.imp_right ?_
  rintro ⟨o, ho, hread, hdone, hrest⟩
  exact ⟨o, hgrown.kept o ho (by simp [hdone]), hread, hdone, hrest⟩

variable {w : Op}

theorem pendingRead_of {r : Op} (hread : r.write = false) (hpending : r.complete = none) :
    pendingRead r = true := by
  rw [pendingRead, hread, hpending]
  rfl

theorem Timed.grown_read {os : List Op} {now : ℕ} {r : Op} (h : Timed os now) (hr : r ∈ os)
    (hread : r.write = false) (hpending : r.complete = none) (tick : ℕ) (data : UInt8) :
    Grown os (os.map (finishOp r.id tick (some data))) now :=
  Grown.finish (fun _ ho => h.eq_of_id ho hr) hpending (some data)
    (fun hw => absurd (hread.symm.trans hw) Bool.false_ne_true) tick

namespace Tracks

variable {tr tr' : ByteTracker} {os os' : List Op} {now now' tick serial : ℕ} {first : Option ℕ}

theorem start : Tracks {} [] 0 none where
  timed := ⟨Pairwise.nil, Pairwise.nil, nofun, nofun, by decide⟩
  reads := rfl
  observed := forall_mem_singleton.2 (.inl rfl)
  oldest t ht := by
    cases ht
    exact ⟨le_rfl, nofun⟩
  nonempty := by simp
  clusters := Clustered.nil 0
  headed := ⟨nofun, fun _ => rfl⟩

/-- What the observations need when the operations grow. -/
theorem oldest_grown (h : Tracks tr os now first) (hgrown : Grown os os' now) (hnow : now ≤ now')
    {t : Transaction} (ht : tr.readObservations.head? = some t) :
    t.complete ≤ now' ∧ ∀ o ∈ os', pendingRead o = true → t.complete ≤ o.start := by
  obtain ⟨hle, hreads⟩ := h.oldest t ht
  exact ⟨hle.trans hnow, hgrown.le_start hle hreads⟩

theorem mono (h : Tracks tr os now first) (hnow : now ≤ tick) (htick : tick < TICK_FUTURE) :
    Tracks tr os tick first :=
  { h with
    timed := h.timed.mono hnow htick
    oldest := fun _ => h.oldest_grown (Grown.refl os now) hnow
    clusters := h.clusters.grown (Grown.refl os now) hnow (fun _ _ => Iff.rfl)
    headed := h.headed.grown (Grown.refl os now) hnow }

theorem startRead (h : Tracks tr os now first) (hnow : now ≤ tick) (htick : tick < TICK_FUTURE)
    (hid : ∀ o ∈ os, o.id < serial) :
    Tracks (tr.startRead serial tick) (os ++ [⟨serial, false, tick, none, DATA_INITIAL⟩]) tick
      first := by
  have hgrown : Grown os (os ++ [(⟨serial, false, tick, none, DATA_INITIAL⟩ : Op)]) now :=
    Grown.add hnow
  have hserials : ∀ t ∈ tr.outstandingReads, t.serial < serial := by
    rw [h.reads, forall_mem_map]
    exact fun o ho => hid o (mem_of_mem_filter ho)
  have hnew : ¬ tr.outstandingReads.any (fun t => t.serial = serial) = true := by
    intro hany
    obtain ⟨t, ht, heq⟩ := any_eq_true.mp hany
    exact absurd (of_decide_eq_true heq) (ne_of_lt (hserials t ht))
  rw [ByteTracker.startRead, if_neg hnew]
  refine ⟨h.timed.add hnow htick hid rfl rfl, ?_, fun t ht => (h.observed t ht).grown hgrown,
    fun t => h.oldest_grown hgrown hnow, h.nonempty, ?_, h.headed.grown hgrown hnow⟩
  · simp only
    rw [insertByKey_eq_concat (fun t ht => (hserials t ht).le), h.reads, filter_append, map_append]
    rfl
  · refine h.clusters.grown hgrown hnow (fun o hw => ?_)
    rw [mem_append, mem_singleton]
    refine or_iff_left ?_
    rintro rfl
    exact Bool.false_ne_true hw

theorem setClusters (h : Tracks tr os now first) (hgrown : Grown os os' now) (hnow : now ≤ now')
    (htimed : Timed os' now')
    (hreads : (os'.filter pendingRead).map readEntry = (os.filter pendingRead).map readEntry)
    {cs : List WriteCluster} (hcs : Clustered cs os' now') {first' : Option ℕ}
    (hheaded : Headed cs os' now' first') :
    Tracks { tr with writeClusters := cs } os' now' first' where
  timed := htimed
  reads := h.reads.trans hreads.symm
  observed t ht := (h.observed t ht).grown hgrown
  oldest _ ht := h.oldest_grown hgrown hnow ht
  nonempty := h.nonempty
  clusters := hcs
  headed := hheaded

/-- The last cluster has changed; it did not get a later start. -/
theorem headed_replaceLast (h : Tracks tr os now first) (hgrown : Grown os os' now)
    (hnow : now ≤ now') {done : List WriteCluster} {c c' : WriteCluster}
    (hcs : tr.writeClusters = done ++ [c]) (hopen : Open c now)
    (hstart : c.start < TICK_FUTURE → c'.start ≤ c.start) :
    Headed (done ++ [c']) os' now' first := by
  refine ⟨fun d hd => ?_, fun hnil => absurd hnil (by simp)⟩
  cases done with
  | nil =>
    obtain rfl : c' = d := by simpa using hd
    rcases h.headed.head c (by rw [hcs]; rfl) with ⟨t, ht, hct, hfuture⟩ | hsettled
    · exact .inl ⟨t, ht, (hstart (lt_of_le_of_lt hct hfuture)).trans hct, hfuture⟩
    · -- a cluster that takes writes is not complete
      have hle := hsettled.complete
      rw [hopen.complete] at hle
      exact absurd hle (not_le.mpr h.timed.future)
  | cons e done => exact (h.headed.grown hgrown hnow).head d (by rw [hcs]; exact hd)

theorem startWrite (h : Tracks tr os now first) (hnow : now ≤ tick) (htick : tick < TICK_FUTURE)
    (hid : ∀ o ∈ os, o.id < serial) (data : UInt8) :
    Ok (fun tr' => Tracks tr' (os ++ [⟨serial, true, tick, none, data⟩]) tick
        (first.or (some tick)))
      ⊥ (tr.startWrite serial tick data) := by
  obtain ⟨hdone, hopen, hclust, htarget⟩ := h.clusters.target h.timed.future
  rw [ByteTracker.startWrite]
  generalize tr.getIncompleteWriteCluster = target at *
  obtain ⟨done, c⟩ := target
  set o : Op := ⟨serial, true, tick, none, data⟩ with ho
  have hgrown : Grown os (os ++ [o]) now := Grown.add hnow
  have hentries := hclust.entries c mem_concat_self
  have hnew : serial ∉ c.writes.map Transaction.serial := by
    intro hmem
    obtain ⟨t, ht, heq⟩ := mem_map.mp hmem
    obtain ⟨x, hx, -, rfl⟩ := hentries t ht
    exact absurd heq (ne_of_lt (hid x hx))
  refine (hopen.startWrite data hnow hnew).bind ?_
  rintro c' ⟨hopen', hwrites, hstart⟩
  have hentry : writeEntry o = ⟨serial, tick, TICK_FUTURE, data⟩ := rfl
  have hcs' : Clustered (done ++ [c']) (os ++ [o]) tick := by
    refine hclust.replaceLast hgrown hnow hdone h.timed (.inl hopen') ?_ ?_ ?_ ?_
    all_goals rw [hwrites]
    · refine forall_mem_append.2 ⟨fun t ht => ?_, forall_mem_singleton.2 ?_⟩
      · obtain ⟨x, hx, hw⟩ := hentries t ht
        exact ⟨x, mem_append_left _ hx, hw⟩
      · exact ⟨o, mem_concat_self, rfl, hentry⟩
    · refine forall_mem_append.2 ⟨fun x hx _ => .inr hx, forall_mem_singleton.2 fun _ => .inl ?_⟩
      rw [hentry]
      exact mem_concat_self
    · refine forall_mem_append.2 ⟨fun u hu => .inl ⟨u, hu, rfl, rfl⟩, forall_mem_singleton.2 ?_⟩
      exact .inr ⟨hnow, fun x hx => ne_of_lt (hid x hx)⟩
    · exact fun x _ => mem_append_left _
  have hreads : ((os ++ [o]).filter pendingRead).map readEntry
      = (os.filter pendingRead).map readEntry := by
    rw [filter_append, filter_cons_of_neg (by simp [pendingRead, ho]), filter_nil, append_nil]
  refine h.setClusters hgrown hnow (h.timed.add hnow htick hid rfl rfl) hreads hcs' ?_
  rcases htarget with htarget | htarget
  · -- a new cluster
    obtain ⟨rfl, rfl⟩ := Prod.mk.inj htarget
    refine ⟨fun d hd => ?_, fun hnil => absurd hnil (by simp)⟩
    cases hcs : tr.writeClusters with
    | nil =>
      rw [hcs] at hd
      obtain rfl : c' = d := by simpa using hd
      refine .inl ⟨tick, ?_, le_of_eq hstart, htick⟩
      rw [h.headed.empty hcs]
      rfl
    | cons e cs =>
      rw [hcs] at hd
      refine ((h.headed.grown hgrown hnow).head d (by rw [hcs]; exact hd)).imp_left ?_
      rintro ⟨t, ht, hrest⟩
      exact ⟨t, by rw [ht]; rfl, hrest⟩
  · have hheaded : Headed (done ++ [c']) (os ++ [o]) tick first := by
      refine h.headed_replaceLast hgrown hnow htarget hopen (fun hlt => ?_)
      rw [hstart, if_neg (ne_of_lt hlt)]
    refine ⟨fun d hd => (hheaded.head d hd).imp_left ?_, fun hnil => absurd hnil (by simp)⟩
    rintro ⟨t, ht, hrest⟩
    exact ⟨t, by rw [ht]; rfl, hrest⟩

/-- A write that is under way is in the cluster that takes writes. -/
theorem mem_target (h : Tracks tr os now first) (hw : w ∈ os) (hwrite : w.write = true)
    (hpending : w.complete = none) :
    writeEntry w ∈ tr.getIncompleteWriteCluster.2.writes
      ∧ tr.writeClusters = tr.getIncompleteWriteCluster.1 ++ [tr.getIncompleteWriteCluster.2] := by
  obtain ⟨hdone, -, hclust, htarget⟩ := h.clusters.target h.timed.future
  have hmem : writeEntry w ∈ tr.getIncompleteWriteCluster.2.writes := by
    rcases hclust.present w hw hwrite with ⟨d, hd, hmem⟩ | ⟨x, -, -, c, hc, -⟩
    · rcases mem_append.mp hd with hd | hd
      · have hle := ((hdone d hd).le _ hmem).trans (hdone d hd).complete
        obtain ⟨c, hc, -⟩ := complete_of_writeEntry_le h.timed hle le_rfl
        cases hpending.symm.trans hc
      · rw [mem_singleton.mp hd] at hmem
        exact hmem
    · cases hpending.symm.trans hc
  refine ⟨hmem, htarget.resolve_left (fun heq => ?_)⟩
  rw [heq] at hmem
  cases hmem

theorem prune (h : Tracks tr os now first) :
    Ok (fun tr' => Tracks tr' os now first) ⊥ (tr.pruneTransactions now) := by
  have hbefore : tr.pruneTick now ≤ now
      ∧ ∀ o ∈ os, pendingRead o = true → tr.pruneTick now ≤ o.start := by
    rw [ByteTracker.pruneTick, h.reads]
    have hsorted := h.timed.starts.sublist (filter_sublist (p := pendingRead))
    cases hpending : os.filter pendingRead with
    | nil =>
      refine ⟨le_rfl, fun o ho hp => ?_⟩
      exact absurd hp (filter_eq_nil_iff.mp hpending o ho)
    | cons r rest =>
      rw [hpending] at hsorted
      have hr : r ∈ os := mem_of_mem_filter (by rw [hpending]; exact mem_cons_self)
      refine ⟨h.timed.started r hr, fun o ho hp => ?_⟩
      have hmem : o ∈ r :: rest := by
        rw [← hpending]
        exact mem_filter.mpr ⟨ho, hp⟩
      rcases mem_cons.mp hmem with rfl | hmem
      · exact le_rfl
      · exact (pairwise_cons.mp hsorted).1 o hmem
  rw [ByteTracker.pruneTransactions]
  generalize tr.pruneTick now = before at hbefore ⊢
  refine ((lastCompletedTransaction_spec _ _ _).mono (fun _ hr => hr)
    (fun _ hnil => h.nonempty hnil)).bind ?_
  rintro observations ⟨dropped, x, rest, hobs, rfl, hstop⟩
  -- the observations that stay
  have hobserved : Tracks { tr with readObservations := x :: rest } os now first := by
    refine ⟨h.timed, h.reads, fun t ht => h.observed t ?_, fun t ht => ?_, by simp, h.clusters,
      h.headed⟩
    · rw [hobs]
      exact mem_append_right _ ht
    · obtain rfl : x = t := by simpa using ht
      rcases hstop with rfl | hlt
      · exact h.oldest x (by rw [hobs]; rfl)
      · exact ⟨hlt.le.trans hbefore.1, fun o ho hp => hlt.le.trans (hbefore.2 o ho hp)⟩
  rw [ByteTracker.pruneClusters]
  by_cases hempty : tr.writeClusters.isEmpty = true
  · rw [if_pos hempty]
    exact hobserved
  · rw [if_neg hempty]
    refine ((lastCompletedTransaction_spec _ _ _).mono (fun _ hr => hr)
      (fun _ hnil => hempty (by simpa using hnil))).bind ?_
    rintro clusters ⟨dropped', c, rest', hcs, rfl, hstop'⟩
    obtain ⟨hclust, hsettled⟩ := h.clusters.prune h.timed hcs hbefore.1 hbefore.2 hstop'
    refine hobserved.setClusters (Grown.refl os now) le_rfl h.timed rfl hclust ?_
    refine ⟨fun d hd => ?_, fun hnil => absurd hnil (by simp)⟩
    rcases hsettled with rfl | hsettled
    · exact h.headed.head d (by rw [hcs]; exact hd)
    · obtain rfl : c = d := by simpa using hd
      exact .inr hsettled

theorem reads_finish (os : List Op) (serial tick : ℕ) (data : Option UInt8) :
    ((os.map (finishOp serial tick data)).filter pendingRead).map readEntry
      = (os.filter (fun o => pendingRead o && o.id != serial)).map readEntry := by
  rw [filter_map, map_map]
  have hentry : readEntry ∘ finishOp serial tick data = readEntry := by
    funext o
    simp [readEntry]
  rw [hentry]
  congr 1
  refine filter_congr (fun o _ => ?_)
  rw [Function.comp_apply, pendingRead, pendingRead, finishOp]
  by_cases hid : o.id = serial
  · simp [hid]
  · simp [hid]

theorem completeWrite (h : Tracks tr os now first) (hnow : now ≤ tick) (htick : tick < TICK_FUTURE)
    (hw : w ∈ os) (hwrite : w.write = true) (hpending : w.complete = none) :
    Ok (fun tr' => Tracks tr' (os.map (finishOp w.id tick none)) tick first)
      ⊥ (tr.completeWrite tick w.id tick) := by
  obtain ⟨hmem, hcs⟩ := h.mem_target hw hwrite hpending
  obtain ⟨hdone, hopen, hclust, -⟩ := h.clusters.target h.timed.future
  rw [ByteTracker.completeWrite]
  generalize tr.getIncompleteWriteCluster = target at *
  obtain ⟨done, c⟩ := target
  have hgrown : Grown os _ now := Grown.finish (fun o ho => h.timed.eq_of_id ho hw) hpending none (fun _ => rfl) tick
  have hentry := (writeEntry_pending h.timed hw).mpr hpending
  refine (hopen.completeWrite hnow htick hmem hentry).bind ?_
  rintro c' ⟨hc', hwrites, hstart⟩
  have hcs' : Clustered (done ++ [c']) (os.map (finishOp w.id tick none)) tick := by
    refine hclust.replaceLast hgrown hnow hdone h.timed hc' ?_ ?_ ?_ ?_
    all_goals rw [hwrites]
    · refine forall_mem_map.2 fun t ht => ?_
      obtain ⟨o, ho, how, rfl⟩ := hclust.entries c mem_concat_self t ht
      refine ⟨_, mem_map_of_mem ho, ?_, writeEntry_finishOp w.id tick o⟩
      rw [finishOp_write]
      exact how
    · refine forall_mem_map.2 fun o ho _ => ?_
      by_cases hid : o.id = w.id
      · rw [h.timed.eq_of_id ho hw hid, writeEntry_finishOp]
        exact .inl (mem_map_of_mem hmem)
      · rw [finishOp, if_neg hid]
        exact .inr ho
    · refine forall_mem_map.2 fun t ht => .inl ⟨t, ht, ?_, finishWrite_serial _ _ t⟩
      rw [finishWrite]
      split <;> rfl
    · refine forall_mem_map.2 fun o ho hin => ?_
      by_cases hid : o.id = w.id
      · rw [h.timed.eq_of_id ho hw hid, writeEntry_finishOp]
        exact mem_map_of_mem hmem
      · rw [finishOp, if_neg hid] at hin ⊢
        refine mem_map.mpr ⟨_, hin, ?_⟩
        rw [finishWrite, if_neg (show ¬ (writeEntry o).serial = (writeEntry w).serial from hid)]
  have hreads : ((os.map (finishOp w.id tick none)).filter pendingRead).map readEntry
      = (os.filter pendingRead).map readEntry := by
    rw [reads_finish]
    congr 1
    refine filter_congr (fun o ho => ?_)
    by_cases hid : o.id = w.id
    · rw [h.timed.eq_of_id ho hw hid, pendingRead, hwrite]
      rfl
    · simp [hid]
  refine prune (h.setClusters hgrown hnow (h.timed.finish hnow htick _ _) hreads hcs' ?_)
  exact h.headed_replaceLast hgrown hnow hcs hopen (fun _ => le_of_eq hstart)

theorem abortWrite (h : Tracks tr os now first) (hw : w ∈ os) (hwrite : w.write = true)
    (hpending : w.complete = none) :
    Tracks (tr.abortWrite w.id) (os.filter (fun o => o.id ≠ w.id)) now first := by
  obtain ⟨hmem, hcs⟩ := h.mem_target hw hwrite hpending
  obtain ⟨hdone, hopen, hclust, -⟩ := h.clusters.target h.timed.future
  rw [ByteTracker.abortWrite]
  generalize tr.getIncompleteWriteCluster = target at *
  obtain ⟨done, c⟩ := target
  have hgrown : Grown os _ now := Grown.abort (fun o ho => h.timed.eq_of_id ho hw) hpending
  have hentry := (writeEntry_pending h.timed hw).mpr hpending
  obtain ⟨hc', hwrites, hstart⟩ := hopen.abortWrite hmem hentry
  have hserial : (writeEntry w).serial = w.id := rfl
  rw [hserial] at hc' hwrites hstart
  have hcs' : Clustered (done ++ [c.abortWrite w.id]) (os.filter (fun o => o.id ≠ w.id)) now := by
    refine hclust.replaceLast hgrown le_rfl hdone h.timed hc' ?_ ?_ ?_ ?_
    all_goals rw [hwrites]
    · intro u hu
      obtain ⟨o, ho, how, rfl⟩ := hclust.entries c mem_concat_self u (mem_of_mem_filter hu)
      exact ⟨o, mem_filter.mpr ⟨ho, (mem_filter.mp hu).2⟩, how, rfl⟩
    · exact fun o ho _ => .inr (mem_of_mem_filter ho)
    · exact fun u hu => .inl ⟨u, mem_of_mem_filter hu, rfl, rfl⟩
    · exact fun o ho hin => mem_filter.mpr ⟨hin, (mem_filter.mp ho).2⟩
  have hreads : ((os.filter (fun o => o.id ≠ w.id)).filter pendingRead).map readEntry
      = (os.filter pendingRead).map readEntry := by
    rw [filter_filter]
    congr 1
    refine filter_congr (fun o ho => ?_)
    by_cases hid : o.id = w.id
    · rw [h.timed.eq_of_id ho hw hid, pendingRead, hwrite]
      rfl
    · simp [hid]
  refine h.setClusters hgrown le_rfl (h.timed.filter _) hreads hcs' ?_
  exact h.headed_replaceLast hgrown le_rfl hcs hopen (fun _ => le_of_eq hstart)

/-- What `inExpectedData` needs to return, for a read that does not complete in the tick of the
first write. -/
theorem answerable (h : Tracks tr os now first) {r : Op} (hr : r ∈ os) (hpr : pendingRead r = true)
    (hapart : ∀ t, first = some t → t < tick) {dropped rest : List Transaction}
    {last_obs : Transaction} (hobs : tr.readObservations = dropped ++ last_obs :: rest)
    (hstop : dropped = [] ∨ last_obs.complete < r.start) :
    ByteTracker.Answerable tr.writeClusters last_obs r.start tick := by
  -- a cluster that is complete by the start of the read has a write that does not overlap
  have hclosed {c : WriteCluster} (hc : Closed c now) (hover : ∀ u ∈ c.writes, r.start < u.complete) :
      r.start < c.complete := by
    obtain ⟨u, hu⟩ := exists_mem_of_ne_nil _ hc.nonempty
    exact lt_of_lt_of_le (hover u hu) (hc.le u hu)
  refine ⟨?_, ?_, fun hover => ⟨fun c hc => ?_, fun c hc => ?_⟩⟩
  · rcases h.observed last_obs (by simp [hobs]) with rfl | ⟨o, ho, -, hdone, hos, -⟩
    · exact le_rfl
    · rw [← hos]
      exact (h.timed.completed o ho _ hdone).1
  · rcases hstop with rfl | hlt
    · exact (h.oldest last_obs (by rw [hobs]; rfl)).2 r hr hpr
    · exact hlt.le
  · rcases h.headed.head c hc with ⟨t, ht, hct, -⟩ | hsettled
    · exact lt_of_le_of_lt hct (hapart t ht)
    · have hlt := hclosed hsettled.toClosed (hover c (mem_of_mem_head? hc))
      exact absurd (hsettled.before r hr hpr) (not_le.mpr hlt)
  · have hmem := mem_of_getLast? hc
    rcases h.clusters.shape with hall | ⟨done, d, hcs, -, hopen⟩
    · exact hclosed (hall c hmem) (hover c hmem)
    · rw [hcs, getLast?_concat, Option.some.injEq] at hc
      rw [← hc, hopen.complete]
      exact lt_of_le_of_lt (h.timed.started r hr) h.timed.future

/-- A read completes. Its value is accepted if it is expected. -/
theorem completeRead (h : Tracks tr os now first) (hnow : now ≤ tick) (htick : tick < TICK_FUTURE)
    (hapart : ∀ t, first = some t → t < tick) {r : Op} (hr : r ∈ os) (hread : r.write = false)
    (hpending : r.complete = none) {data : UInt8} {fits : Prop}
    (hexp : fits → ∀ dropped last_obs rest, tr.readObservations = dropped ++ last_obs :: rest →
      (dropped = [] ∨ last_obs.complete < r.start) →
        ByteTracker.Expected tr.writeClusters last_obs r.start tick data) :
    Ok (fun out => (fits → out.1 = true)
        ∧ Tracks out.2 (os.map (finishOp r.id tick (some data))) tick first)
      ⊥ (tr.completeRead tick r.id tick data) := by
  have hgrown := h.timed.grown_read hr hread hpending tick data
  have hpr := pendingRead_of hread hpending
  have hfind : tr.outstandingReads.find? (fun t => t.serial = r.id) = some (readEntry r) := by
    have hmem : readEntry r ∈ tr.outstandingReads := by
      rw [h.reads]
      exact mem_map_of_mem (mem_filter.mpr ⟨hr, hpr⟩)
    obtain ⟨it, hit⟩ : ∃ it, tr.outstandingReads.find? (fun t => t.serial = r.id) = some it :=
      Option.isSome_iff_exists.mp (find?_isSome.mpr ⟨_, hmem, decide_eq_true rfl⟩)
    have hin := mem_of_find?_eq_some hit
    rw [h.reads] at hin
    obtain ⟨o, ho, rfl⟩ := mem_map.mp hin
    have hserial := find?_some hit
    have hid : o.id = r.id := of_decide_eq_true hserial
    rw [hit, h.timed.eq_of_id (mem_of_mem_filter ho) hr hid]
  have hout : tr.outstandingReads.filter (fun t => t.serial ≠ r.id)
      = ((os.map (finishOp r.id tick (some data))).filter pendingRead).map readEntry := by
    rw [reads_finish, h.reads, filter_map, filter_filter]
    congr 1
    refine filter_congr (fun o _ => ?_)
    by_cases hid : o.id = r.id <;> simp [readEntry, hid]
  rw [ByteTracker.completeRead, hfind]
  refine (ByteTracker.inExpectedData_spec fits h.nonempty
    (fun dropped last_obs rest hobs hstop => ⟨h.answerable hr hpr hapart hobs hstop,
      fun hfits => hexp hfits dropped last_obs rest hobs hstop⟩)).bind ?_
  rintro ⟨result, expected⟩ hresult
  have hnext : Tracks { tr with
      outstandingReads := tr.outstandingReads.filter (fun t => t.serial ≠ r.id)
      _lastExpectedData := expected
      readObservations := tr.readObservations ++ [⟨r.id, r.start, tick, data⟩] }
      (os.map (finishOp r.id tick (some data))) tick first := by
    refine ⟨h.timed.finish hnow htick _ _, hout, ?_, ?_, by simp, ?_, h.headed.grown hgrown hnow⟩
    · refine forall_mem_append.2 ⟨fun t ht => (h.observed t ht).grown hgrown, ?_⟩
      refine forall_mem_singleton.2 (.inr ⟨_, mem_map_of_mem hr, ?_, ?_, finishOp_start .., ?_⟩)
      · rw [finishOp_write]
        exact hread
      all_goals rw [finishOp, if_pos rfl]
      rfl
    · intro t ht
      refine h.oldest_grown hgrown hnow ?_
      rw [head?_append_of_ne_nil _ h.nonempty] at ht
      exact ht
    · refine h.clusters.grown hgrown hnow (fun o how => ?_)
      have hne : ∀ x ∈ os, x.write = true → ¬ x.id = r.id := by
        intro x hx hxw hid
        rw [h.timed.eq_of_id hx hr hid] at hxw
        exact Bool.false_ne_true (hread.symm.trans hxw)
      constructor
      · intro ho
        obtain ⟨x, hx, rfl⟩ := mem_map.mp ho
        rw [finishOp_write] at how
        rw [finishOp, if_neg (hne x hx how)]
        exact hx
      · intro ho
        refine mem_map.mpr ⟨o, ho, ?_⟩
        rw [finishOp, if_neg (hne o ho how)]
  refine hnext.prune.bind ?_
  exact fun tr' htr' => ⟨hresult, htr'⟩

end Tracks

/-! ## Why the value of a read is expected

`r` is the read as it is when it completes with `data` at `tick`, and `order` an order of the
operations of a later time in which every read returns what was written last. -/

section Expected

open Linearizes

variable {tr : ByteTracker} {os os' order : List Op} {now tick : ℕ} {first : Option ℕ} {r : Op}
  {data : UInt8} {v0 : UInt8} {last_obs : Transaction}

/-- The read with its completion. -/
def finished (r : Op) (tick : ℕ) (data : UInt8) : Op := finishOp r.id tick (some data) r

theorem finished_start (r : Op) (tick : ℕ) (data : UInt8) : (finished r tick data).start = r.start :=
  finishOp_start ..

theorem finished_complete (r : Op) (tick : ℕ) (data : UInt8) :
    (finished r tick data).complete = some tick := by
  rw [finished, finishOp, if_pos rfl]

theorem finished_data (r : Op) (tick : ℕ) (data : UInt8) : (finished r tick data).data = data := by
  rw [finished, finishOp, if_pos rfl]
  rfl

/-- What is known when the read completes. -/
structure Completing (tr : ByteTracker) (os : List Op) (now : ℕ) (first : Option ℕ) (r : Op)
    (tick : ℕ) (data : UInt8) (order : List Op) : Prop extends Tracks tr os now first where
  mem : r ∈ os
  read : r.write = false
  pending : r.complete = none
  before : now ≤ tick
  apart : ∀ t, first = some t → t < tick
  grown : Grown (os.map (finishOp r.id tick (some data))) order tick

namespace Completing

variable (k : Completing tr os now first r tick data order)

include k

/-- What has completed is in the order. -/
theorem kept {o : Op} (ho : o ∈ os) (hdone : o.complete ≠ none) : o ∈ order := by
  have hgrown := k.timed.grown_read k.mem k.read k.pending tick data
  exact k.grown.kept o (hgrown.kept o ho hdone) hdone

theorem mem_order : finished r tick data ∈ order := by
  refine k.grown.kept _ (mem_map_of_mem k.mem) ?_
  exact ne_of_eq_of_ne (finished_complete r tick data) (by simp)

/-- A write in the clusters that was complete when the read started precedes it. -/
theorem precedes {c : WriteCluster} (hc : c ∈ tr.writeClusters) {u : Transaction}
    (hu : u ∈ c.writes) (hle : u.complete ≤ r.start) :
    ∃ x ∈ os, writeEntry x = u ∧ x ∈ order ∧ x.write = true
      ∧ x.Precedes (finished r tick data) := by
  obtain ⟨x, hx, hw, rfl⟩ := k.clusters.entries c hc u hu
  obtain ⟨m, hm, hmr⟩ := complete_of_writeEntry_le k.timed hle (k.timed.started r k.mem)
  refine ⟨x, hx, rfl, k.kept hx (by simp [hm]), hw, m, hm, ?_⟩
  rw [finished_start]
  exact hmr

theorem settled_precedes (hw : Settled os now w) :
    w ∈ order ∧ w.Precedes (finished r tick data) := by
  obtain ⟨m, hm, -, hreads⟩ := hw.before
  refine ⟨k.kept hw.mem (by simp [hm]), m, hm, ?_⟩
  rw [finished_start]
  exact hreads r k.mem (pendingRead_of k.read k.pending)

/-- The write that the value comes from is one of the operations so far. -/
theorem source (h : ReadsFrom order (finished r tick data) w) :
    ∃ x ∈ os, x.write = true ∧ x.data = data ∧ (x.complete ≠ none → w = x) := by
  rcases k.grown.later w h.mem with ⟨o, ho, hsame⟩ | hlater
  · obtain ⟨x, hx, rfl⟩ := mem_map.mp ho
    have hxw : x.write = true := by
      rw [← finishOp_write r.id tick (some data), hsame.write]
      exact h.write
    have hid : ¬ x.id = r.id := by
      intro hid
      rw [k.timed.eq_of_id hx k.mem hid] at hxw
      exact Bool.false_ne_true (k.read.symm.trans hxw)
    rw [finishOp, if_neg hid] at hsame
    refine ⟨x, hx, hxw, ?_, hsame.done⟩
    rw [hsame.data hxw, h.data, finished_data]
  · exact absurd ⟨tick, finished_complete r tick data, hlater⟩ h.started

/-- The last observation, if it is one, is a read that precedes this one. -/
theorem observation (hobs : last_obs ∈ tr.readObservations) (hle : last_obs.complete ≤ r.start)
    (hreal : last_obs.complete ≠ TICK_INITIAL) :
    ∃ o ∈ order, o.write = false ∧ o.complete = some last_obs.complete ∧ o.start = last_obs.start
      ∧ o.data = last_obs.data ∧ o.Precedes (finished r tick data)
      ∧ o ≠ finished r tick data := by
  rcases k.observed last_obs hobs with rfl | ⟨o, ho, hread, hdone, hstart, hdata⟩
  · exact absurd rfl hreal
  · refine ⟨o, k.kept ho (by simp [hdone]), hread, hdone, hstart, hdata, ?_, ?_⟩
    · refine ⟨_, hdone, ?_⟩
      rw [finished_start]
      exact hle
    · intro heq
      have hid : o.id = r.id := by
        rw [heq, finished, finishOp_id]
      rw [k.timed.eq_of_id ho k.mem hid, k.pending] at hdone
      simp at hdone

/-- No write comes before the read: any observation has the same value, and without one nothing is
known. -/
theorem expected_initial (h : ReadsInitial order (finished r tick data))
    (hobs : last_obs ∈ tr.readObservations)
    (hanswer : ByteTracker.Answerable tr.writeClusters last_obs r.start tick) :
    ByteTracker.Expected tr.writeClusters last_obs r.start tick data := by
  have hover : ∀ c ∈ tr.writeClusters, ∀ u ∈ c.writes, r.start < u.complete := by
    intro c hc u hu
    by_contra hlt
    obtain ⟨x, -, -, hx, hw, hprec⟩ := k.precedes hc hu (not_lt.mp hlt)
    exact h.noWrite x hx hw hprec
  by_cases hreal : last_obs.complete = TICK_INITIAL
  · obtain ⟨hfirst, hlast⟩ := hanswer.ends hover
    exact .anything hreal hover hfirst hlast
  · obtain ⟨o, ho, hread, hdone, -, hdata, hprec, hne⟩ := k.observation hobs hanswer.past hreal
    refine .observation hreal hanswer.past ?_ (fun c hc u hu hu' => ?_)
    · rw [← hdata, h.earlier o ho hread (by simp [hdone]) hprec hne, finished_data]
    · exact absurd (hover c hc u hu) (not_lt.mpr hu')

/-- The value comes from a write that the last observation is not behind. -/
theorem expected_write (h : ReadsFrom order (finished r tick data) w)
    (hcounts : ∀ m, w.complete = some m → last_obs.start ≤ m) (hpast : last_obs.start ≤ now) :
    ByteTracker.Expected tr.writeClusters last_obs r.start tick data := by
  obtain ⟨x, hx, hxw, hxdata, hxdone⟩ := k.source h
  rcases k.clusters.present x hx hxw with ⟨c, hc, hmem⟩ | ⟨z, hz, hne, hprec⟩
  · obtain ⟨older, younger, hcs⟩ := append_of_mem hc
    refine .write hcs hmem hxdata ?_ (fun d hd u hu => ?_)
    · cases hxc : x.complete with
      | none =>
        rw [writeEntry, hxc]
        exact hpast.trans k.timed.future.le
      | some m =>
        rw [writeEntry, hxc]
        refine hcounts m ?_
        rw [hxdone (by simp [hxc])]
        exact hxc
    · -- a write of a younger cluster from before the read would come between
      by_contra hlt
      have hd' : d ∈ tr.writeClusters := by
        rw [hcs]
        exact mem_append_right _ (mem_cons_of_mem _ hd)
      obtain ⟨y, hy, rfl, hyo, hyw, hyr⟩ := k.precedes hd' hu (not_lt.mp hlt)
      have horder := k.clusters.order
      rw [hcs, pairwise_append, pairwise_cons] at horder
      obtain ⟨hle, hserial⟩ := horder.2.1.1 d hd _ hmem _ hu
      obtain ⟨m, hm, hmy⟩ := complete_of_writeEntry_le k.timed hle (k.timed.started y hy)
      have hwx := hxdone (by simp [hm])
      refine h.last y hyo hyw ?_ hyr ⟨m, by rw [hwx]; exact hm, hmy⟩
      rintro rfl
      exact hserial (by rw [← hwx])
  · -- so would the write that superseded it
    obtain ⟨m, hm, hmz⟩ := hprec
    have hwx := hxdone (by simp [hm])
    obtain ⟨hzo, hzr⟩ := k.settled_precedes hz
    refine absurd ⟨m, by rw [hwx]; exact hm, hmz⟩ (h.last z hzo hz.write ?_ hzr)
    rw [hwx]
    exact hne

/-- **A value that fits a linearizable history is expected.** -/
theorem expected (hlin : Linearizes v0 order) {dropped rest : List Transaction}
    (hobs : tr.readObservations = dropped ++ last_obs :: rest)
    (hstop : dropped = [] ∨ last_obs.complete < r.start) :
    ByteTracker.Expected tr.writeClusters last_obs r.start tick data := by
  have hmem : last_obs ∈ tr.readObservations := by
    rw [hobs]
    exact mem_append_right _ mem_cons_self
  have hanswer := k.answerable k.mem (pendingRead_of k.read k.pending) k.apart hobs hstop
  have hle := hanswer.past
  have hread : (finished r tick data).write = false := by
    rw [finished, finishOp_write]
    exact k.read
  rcases hlin.read_cases k.mem_order hread (by simp [finished_complete]) with ⟨w, h⟩ | h
  · have hstart := hanswer.order
    have hpast := (hstart.trans hle).trans (k.timed.started r k.mem)
    by_cases hreal : last_obs.complete = TICK_INITIAL
    · refine k.expected_write h (fun m _ => ?_) hpast
      rw [hreal] at hstart
      exact hstart.trans (Nat.zero_le m)
    · obtain ⟨o, ho, horead, hdone, hos, hdata, hprec, hne⟩ := k.observation hmem hle hreal
      rcases h.earlier o ho horead (by simp [hdone]) hprec hne with hafter | ⟨hsame, hbehind⟩
      · refine k.expected_write h (fun m hm => ?_) hpast
        by_contra hlt
        refine hafter ⟨m, hm, ?_⟩
        rw [hos]
        exact (not_le.mp hlt).le
      · refine .observation hreal hle ?_ (fun c hc u hu hu' => ?_)
        · rw [← hdata, hsame, finished_data]
        · obtain ⟨x, -, rfl, hxo, hxw, hxr⟩ := k.precedes hc hu hu'
          by_contra hlt
          exact hbehind x hxo hxw hxr ⟨_, hdone, (not_le.mp hlt).le⟩
  · exact k.expected_initial h hmem hanswer

end Completing

end Expected

end Bindu.Mem.MemChecker
