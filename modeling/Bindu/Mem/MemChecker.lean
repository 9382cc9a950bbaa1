/-
The memory checker (`mem/mem_checker.cc`, `mem/mem_checker.hh`).

For every byte the checker keeps the reads under way, the values that completed reads have seen,
and the writes, in clusters of writes that overlap. When a read completes, the checker looks for an
explanation of the value: a write that overlaps the read or completed last before it, or the value
that the last read saw. What can no longer explain anything is pruned.

The maps from serials to transactions are lists here. The order of the writes in a cluster, an
`unordered_map`, decides only in which order values are recorded for an error message. Addresses are
natural numbers and do not wrap around.
-/
import Bindu.Lib.SortedBy
import Bindu.Mem.Packet

namespace Bindu.Mem.MemChecker

open Bindu.Lib List

/-- The assertions of the checker. -/
inductive Fault where
  | cluster_complete | out_of_order | reopened_late | completed_twice | empty_list
  | observed_later | no_overlap | no_expected_data
  deriving DecidableEq, Repr

def SERIAL_INITIAL : ℕ := 0

def TICK_INITIAL : ℕ := 0

def TICK_FUTURE : ℕ := MaxTick

def DATA_INITIAL : UInt8 := 0

structure Transaction where
  serial : ℕ
  start : ℕ
  complete : ℕ
  data : UInt8 := DATA_INITIAL
  deriving DecidableEq, Repr

/-! ## Write clusters -/

structure WriteCluster where
  start : ℕ := TICK_FUTURE
  complete : ℕ := TICK_FUTURE
  writes : List Transaction := []
  completeMax : ℕ := TICK_INITIAL
  numIncomplete : ℕ := 0
  deriving DecidableEq, Repr

namespace WriteCluster

def isComplete (c : WriteCluster) : Bool := c.complete != TICK_FUTURE

/-- A closed cluster that gets another write is open again. -/
def reopen (c : WriteCluster) (_start : ℕ) : Except Fault WriteCluster :=
  if c.complete = TICK_FUTURE then
    pure c
  else do
    require (decide (_start < c.complete)) .reopened_late
    pure { c with complete := TICK_FUTURE }

/-- `writes.insert`, which does nothing for a serial that is there. -/
def insertWrite (writes : List Transaction) (t : Transaction) : List Transaction :=
  if writes.any (fun u => u.serial = t.serial) then writes else writes ++ [t]

def startWrite (c : WriteCluster) (serial _start : ℕ) (data : UInt8) :
    Except Fault WriteCluster := do
  require (!c.isComplete) .cluster_complete
  let c := { c with start := if c.start = TICK_FUTURE then _start else c.start }
  require (decide (c.start ≤ _start)) .out_of_order
  let c ← { c with numIncomplete := c.numIncomplete + 1 }.reopen _start
  pure { c with writes := insertWrite c.writes ⟨serial, _start, TICK_FUTURE, data⟩ }

/-- `--n` for a `size_t`. -/
def decrement (n : ℕ) : ℕ := if n = 0 then 2 ^ 64 - 1 else n - 1

def completeWrite (c : WriteCluster) (serial _complete : ℕ) : Except Fault WriteCluster :=
  match c.writes.find? (fun t => t.serial = serial) with
  | none => pure c
  | some it => do
      require (decide (it.complete = TICK_FUTURE)) .completed_twice
      let c := { c with
        writes := c.writes.map (fun t =>
          if t.serial = serial then { t with complete := _complete } else t)
        completeMax := if c.completeMax < _complete then _complete else c.completeMax
        numIncomplete := decrement c.numIncomplete }
      pure (if c.numIncomplete = 0 then { c with complete := c.completeMax } else c)

def abortWrite (c : WriteCluster) (serial : ℕ) : WriteCluster :=
  if c.writes.any (fun t => t.serial = serial) then
    let c := { c with
      writes := c.writes.filter (fun t => t.serial ≠ serial)
      numIncomplete := decrement c.numIncomplete }
    if c.numIncomplete = 0 && !c.writes.isEmpty then { c with complete := c.completeMax } else c
  else
    c

end WriteCluster

/-! ## Byte trackers -/

structure ByteTracker where
  outstandingReads : List Transaction := []
  readObservations : List Transaction := [⟨SERIAL_INITIAL, TICK_INITIAL, TICK_INITIAL, DATA_INITIAL⟩]
  writeClusters : List WriteCluster := []
  _lastExpectedData : List UInt8 := []
  deriving DecidableEq, Repr

/-- The loop of `lastCompletedTransaction`, from position `i` back. -/
def scanBack {α : Type} (complete : α → ℕ) (l : List α) (before : ℕ) : ℕ → ℕ
  | 0 => 0
  | i + 1 =>
    match l[i + 1]? with
    | some x => if before ≤ complete x then scanBack complete l before i else i + 1
    | none => i + 1

/-- `lastCompletedTransaction`: the list from the position found on. -/
def lastCompletedTransaction {α : Type} (complete : α → ℕ) (l : List α) (before : ℕ) :
    Except Fault (List α) := do
  require (!l.isEmpty) .empty_list
  pure (l.drop (scanBack complete l before (l.length - 1)))

/-- What `inExpectedData` knows while it scans the write clusters. -/
structure Scan where
  wc_overlap : Bool
  last_obs_valid : Bool
  expected : List UInt8
  deriving DecidableEq, Repr

namespace ByteTracker

def startRead (tr : ByteTracker) (serial start : ℕ) : ByteTracker :=
  if tr.outstandingReads.any (fun t => t.serial = serial) then
    tr
  else
    let t : Transaction := ⟨serial, start, TICK_FUTURE, DATA_INITIAL⟩
    { tr with outstandingReads := insertByKey Transaction.serial t tr.outstandingReads }

/-- One write in the scan. `error` is the return from within the loops: the value is explained. -/
def scanWrite (last_obs : Transaction) (start : ℕ) (data : UInt8) (s : Scan)
    (write : Transaction) : Except (List UInt8) Scan :=
  if write.complete < last_obs.start then
    .ok s
  else if write.data = data then
    .error s.expected
  else
    let s := { s with expected := s.expected ++ [write.data] }
    if start < write.complete then
      .ok s
    else
      .ok { s with
        wc_overlap := false
        last_obs_valid := s.last_obs_valid && !decide (last_obs.complete < write.start) }

/-- The scan through the clusters, the youngest first. -/
def scanClusters (last_obs : Transaction) (start : ℕ) (data : UInt8) :
    List WriteCluster → Scan → Except (List UInt8) Scan
  | [], s => .ok s
  | cluster :: clusters, s =>
    if s.wc_overlap then do
      let s ← cluster.writes.foldlM (scanWrite last_obs start data) s
      scanClusters last_obs start data clusters s
    else
      .ok s

/-- The end of `inExpectedData`: nothing was expected, or something else was. -/
def verdict (last_obs : Transaction) (expected : List UInt8) : Except Fault (Bool × List UInt8) :=
  if expected.isEmpty then do
    require (decide (last_obs.complete = TICK_INITIAL)) .no_expected_data
    pure (true, expected)
  else
    pure (false, expected)

/-- `inExpectedData` after the scan has found no write with the value. -/
def otherSources (tr : ByteTracker) (last_obs : Transaction) (start complete : ℕ) (data : UInt8)
    (s : Scan) : Except Fault (Bool × List UInt8) :=
  if s.last_obs_valid then do
    require (decide (last_obs.complete ≤ start)) .observed_later
    if last_obs.data = data then
      pure (true, s.expected)
    else
      verdict last_obs (s.expected ++ [last_obs.data])
  else if s.wc_overlap then
    match tr.writeClusters.head?, tr.writeClusters.getLast? with
    | some first, some last => do
        require (decide (first.start < complete ∧ start < last.complete)) .no_overlap
        pure (true, s.expected)
    | _, _ => verdict last_obs s.expected
  else
    verdict last_obs s.expected

/-- `inExpectedData`: whether the value is expected, and the values that were. -/
def inExpectedData (tr : ByteTracker) (start complete : ℕ) (data : UInt8) :
    Except Fault (Bool × List UInt8) := do
  let last ← lastCompletedTransaction Transaction.complete tr.readObservations start
  match last with
  | [] => throw .empty_list
  | last_obs :: _ =>
    match scanClusters last_obs start data tr.writeClusters.reverse
        ⟨true, last_obs.complete != TICK_INITIAL, []⟩ with
    | .error expected => pure (true, expected)
    | .ok s => tr.otherSources last_obs start complete data s

/-- The second half of `pruneTransactions`. -/
def pruneClusters (tr : ByteTracker) (before : ℕ) : Except Fault ByteTracker :=
  if tr.writeClusters.isEmpty then
    pure tr
  else do
    let clusters ← lastCompletedTransaction WriteCluster.complete tr.writeClusters before
    pure { tr with writeClusters := clusters }

/-- The tick before which nothing is needed any more. -/
def pruneTick (tr : ByteTracker) (curTick : ℕ) : ℕ :=
  match tr.outstandingReads with
  | [] => curTick
  | first :: _ => first.start

def pruneTransactions (tr : ByteTracker) (curTick : ℕ) : Except Fault ByteTracker := do
  let before := tr.pruneTick curTick
  let observations ← lastCompletedTransaction Transaction.complete tr.readObservations before
  pruneClusters { tr with readObservations := observations } before

def completeRead (tr : ByteTracker) (curTick serial complete : ℕ) (data : UInt8) :
    Except Fault (Bool × ByteTracker) :=
  match tr.outstandingReads.find? (fun t => t.serial = serial) with
  | none => pure (true, tr)
  | some it => do
      let tr := { tr with
        outstandingReads := tr.outstandingReads.filter (fun t => t.serial ≠ serial) }
      let r ← tr.inExpectedData it.start complete data
      let t : Transaction := ⟨serial, it.start, complete, data⟩
      let tr := { tr with
        _lastExpectedData := r.2
        readObservations := tr.readObservations ++ [t] }
      let tr ← tr.pruneTransactions curTick
      pure (r.1, tr)

/-- `getIncompleteWriteCluster`: the cluster that writes go to, behind those before it. -/
def getIncompleteWriteCluster (tr : ByteTracker) : List WriteCluster × WriteCluster :=
  match tr.writeClusters.getLast? with
  | none => (tr.writeClusters, {})
  | some c =>
    if c.isComplete then (tr.writeClusters, {}) else (tr.writeClusters.dropLast, c)

def startWrite (tr : ByteTracker) (serial start : ℕ) (data : UInt8) :
    Except Fault ByteTracker := do
  let c ← tr.getIncompleteWriteCluster.2.startWrite serial start data
  pure { tr with writeClusters := tr.getIncompleteWriteCluster.1 ++ [c] }

def completeWrite (tr : ByteTracker) (curTick serial complete : ℕ) : Except Fault ByteTracker := do
  let c ← tr.getIncompleteWriteCluster.2.completeWrite serial complete
  pruneTransactions { tr with writeClusters := tr.getIncompleteWriteCluster.1 ++ [c] } curTick

def abortWrite (tr : ByteTracker) (serial : ℕ) : ByteTracker :=
  { tr with
    writeClusters := tr.getIncompleteWriteCluster.1
      ++ [tr.getIncompleteWriteCluster.2.abortWrite serial] }

end ByteTracker

/-! ## Where the backward loop stops -/

theorem scanBack_spec {α : Type} (complete : α → ℕ) (l : List α) (before i : ℕ)
    (hi : i < l.length) :
    scanBack complete l before i = 0
      ∨ ∃ x, l[scanBack complete l before i]? = some x ∧ complete x < before := by
  induction i with
  | zero => exact .inl rfl
  | succ i ih =>
    rw [scanBack, getElem?_eq_getElem hi]
    by_cases hle : before ≤ complete l[i + 1]
    · simp only [if_pos hle]
      exact ih (Nat.lt_of_succ_lt hi)
    · simp only [if_neg hle]
      exact .inr ⟨l[i + 1], getElem?_eq_getElem hi, not_le.mp hle⟩

/-- The loop stops at the front, or at an entry that was complete before the given tick. -/
theorem lastCompletedTransaction_spec {α : Type} (complete : α → ℕ) (l : List α) (before : ℕ) :
    Ok (fun r => ∃ dropped x rest, l = dropped ++ x :: rest ∧ r = x :: rest
        ∧ (dropped = [] ∨ complete x < before))
      (fun _ => l = []) (lastCompletedTransaction complete l before) := by
  rw [lastCompletedTransaction]
  refine Ok.require_bind (fun hempty => ?_) (fun hne => ?_)
  · simpa using hempty
  have hpos : 0 < l.length := by
    rw [length_pos_iff]
    simpa using hne
  rcases scanBack_spec complete l before (l.length - 1) (by omega) with hzero | ⟨x, hx, hlt⟩
  · rw [hzero, drop_zero]
    obtain ⟨x, rest, rfl⟩ := List.exists_cons_of_length_pos hpos
    exact ⟨[], x, rest, rfl, rfl, .inl rfl⟩
  · obtain ⟨hk, rfl⟩ := List.getElem?_eq_some_iff.mp hx
    refine ⟨l.take (scanBack complete l before (l.length - 1)), _, _, ?_,
      List.drop_eq_getElem_cons hk, .inr hlt⟩
    rw [← List.drop_eq_getElem_cons hk, List.take_append_drop]

/-! ## What the scan finds -/

namespace ByteTracker

variable {s : Scan}

section Scan

variable {last_obs : Transaction} {start : ℕ} {data : UInt8}

/-- A scan that goes on after these writes has met none with the value, except ignored ones. It
stays in doubt as long as the writes overlap the read, and keeps the last observation as long as
no write came between the observation and the read. -/
structure Passed (last_obs : Transaction) (start : ℕ) (data : UInt8) (writes : List Transaction)
    (s s' : Scan) : Prop where
  unmatched : ∀ t ∈ writes, last_obs.start ≤ t.complete → t.data ≠ data
  overlap : (∀ t ∈ writes, start < t.complete) → s'.wc_overlap = s.wc_overlap
  valid : (∀ t ∈ writes, t.complete ≤ start → t.start ≤ last_obs.complete) →
    s'.last_obs_valid = s.last_obs_valid

theorem scanWrite_spec (s : Scan) (t : Transaction) :
    Ok (Passed last_obs start data [t] s) ⊤ (scanWrite last_obs start data s t) := by
  fun_cases scanWrite last_obs start data s t with
  | case1 hold =>
    exact ⟨forall_mem_singleton.2 fun hle => absurd hle (not_le.2 hold), fun _ => rfl, fun _ => rfl⟩
  | case2 hold hdata => trivial
  | case3 hold hdata s' hover =>
    exact ⟨forall_mem_singleton.2 fun _ => hdata, fun _ => rfl, fun _ => rfl⟩
  | case4 hold hdata s' hover =>
    refine ⟨forall_mem_singleton.2 fun _ => hdata, fun hall => ?_, fun hall => ?_⟩
    · exact absurd (hall t mem_cons_self) hover
    · have := hall t mem_cons_self (not_lt.1 hover)
      simp [s', not_lt.2 this]

theorem Passed.append {ws ws' : List Transaction} {s1 s2 s3 : Scan}
    (h : Passed last_obs start data ws s1 s2) (h' : Passed last_obs start data ws' s2 s3) :
    Passed last_obs start data (ws ++ ws') s1 s3 := by
  refine ⟨forall_mem_append.2 ⟨h.unmatched, h'.unmatched⟩, fun hall => ?_, fun hall => ?_⟩
  · rw [forall_mem_append] at hall
    exact (h'.overlap hall.2).trans (h.overlap hall.1)
  · rw [forall_mem_append] at hall
    exact (h'.valid hall.2).trans (h.valid hall.1)

theorem Passed.nil (s : Scan) : Passed last_obs start data [] s s :=
  ⟨fun _ ht => absurd ht not_mem_nil, fun _ => rfl, fun _ => rfl⟩

theorem scanWrites_spec (writes : List Transaction) (s : Scan) :
    Ok (Passed last_obs start data writes s) ⊤
      (writes.foldlM (scanWrite last_obs start data) s) := by
  induction writes generalizing s with
  | nil => exact Passed.nil s
  | cons _ writes ih =>
    rw [foldlM_cons]
    refine (scanWrite_spec s _).bind (fun s1 hs1 => (ih s1).imp (fun s2 hs2 => ?_))
    exact hs1.append hs2

/-- What is known after a scan: the writes of some of the clusters have been passed. -/
theorem scanClusters_spec (clusters : List WriteCluster) (s : Scan) :
    Ok (fun s' => ∃ writes, (∀ t ∈ writes, ∃ c ∈ clusters, t ∈ c.writes)
        ∧ Passed last_obs start data writes s s')
      ⊤ (scanClusters last_obs start data clusters s) := by
  fun_induction scanClusters last_obs start data clusters s with
  | case1 s => exact ⟨[], fun t ht => absurd ht not_mem_nil, Passed.nil s⟩
  | case2 c clusters s hover ih =>
    refine (scanWrites_spec c.writes s).bind (fun s1 hs1 => (ih s1).imp ?_)
    rintro s2 ⟨writes, hmem, hs2⟩
    refine ⟨c.writes ++ writes, forall_mem_append.2 ⟨?_, fun t ht => ?_⟩, hs1.append hs2⟩
    · exact fun t ht => ⟨c, mem_cons_self, ht⟩
    · obtain ⟨d, hd, ht⟩ := hmem t ht
      exact ⟨d, mem_cons_of_mem _ hd, ht⟩
  | case3 c clusters s hover => exact ⟨[], fun t ht => absurd ht not_mem_nil, Passed.nil s⟩

/-- The scan reaches a cluster when all younger ones overlap the read, and ends at a write with the
value. -/
theorem scanClusters_finds {c : WriteCluster} {t : Transaction} (ht : t ∈ c.writes)
    (hdata : t.data = data) (hcounts : last_obs.start ≤ t.complete) (older : List WriteCluster)
    {younger : List WriteCluster} (hover : ∀ d ∈ younger, ∀ u ∈ d.writes, start < u.complete)
    (hs : s.wc_overlap = true) :
    Ok ⊥ ⊤ (scanClusters last_obs start data (younger ++ c :: older) s):= by
  induction younger generalizing s with
  | nil =>
    rw [nil_append, scanClusters, if_pos hs]
    refine (scanWrites_spec c.writes s).bind (fun s1 hs1 => ?_)
    exact absurd hdata (hs1.unmatched t ht hcounts)
  | cons d younger ih =>
    rw [cons_append, scanClusters, if_pos hs]
    refine (scanWrites_spec d.writes s).bind (fun s1 hs1 => ?_)
    refine ih (fun e he => hover e (mem_cons_of_mem _ he)) ?_
    rw [hs1.overlap (hover d mem_cons_self)]
    exact hs

/-- A scan that is still in doubt after these writes has met none from before the read, except
ignored ones, and has left the last observation as it was. A scan that is not has recorded a
value. -/
structure Scanned (last_obs : Transaction) (start : ℕ) (valid : Bool) (writes : List Transaction)
    (s : Scan) : Prop where
  doubt : s.wc_overlap = true → s.last_obs_valid = valid
    ∧ ∀ t ∈ writes, last_obs.start ≤ t.complete → start < t.complete
  recorded : s.wc_overlap = false → s.expected ≠ []

theorem Scanned.write {valid : Bool} {writes : List Transaction}
    (h : Scanned last_obs start valid writes s) (t : Transaction) :
    Ok (Scanned last_obs start valid (writes ++ [t])) ⊤ (scanWrite last_obs start data s t) := by
  -- the scan stays in doubt, with this write
  have hadd (hover : last_obs.start ≤ t.complete → start < t.complete) (hs : s.wc_overlap = true) :
      s.last_obs_valid = valid
        ∧ ∀ u ∈ writes ++ [t], last_obs.start ≤ u.complete → start < u.complete := by
    exact ⟨(h.doubt hs).1, forall_mem_append.2 ⟨(h.doubt hs).2, forall_mem_singleton.2 hover⟩⟩
  fun_cases scanWrite last_obs start data s t with
  | case1 hold => exact ⟨hadd fun hle => absurd hle (not_le.2 hold), h.recorded⟩
  | case2 hold hdata => trivial
  | case3 hold hdata s' hover => exact ⟨hadd fun _ => hover, fun _ => by simp [s']⟩
  | case4 hold hdata s' hover => exact ⟨nofun, fun _ => by simp [s']⟩

theorem Scanned.writes {valid : Bool} {before : List Transaction}
    (h : Scanned last_obs start valid before s) (writes : List Transaction) :
    Ok (Scanned last_obs start valid (before ++ writes)) ⊤
      (writes.foldlM (scanWrite last_obs start data) s) := by
  induction writes generalizing before s with
  | nil =>
    rw [append_nil]
    exact h
  | cons t writes ih =>
    rw [foldlM_cons, append_cons]
    exact (h.write t).bind (fun s1 hs1 => ih hs1)

theorem Scanned.clusters {valid : Bool} {before : List Transaction}
    (h : Scanned last_obs start valid before s) (clusters : List WriteCluster) :
    Ok (Scanned last_obs start valid (before ++ clusters.flatMap WriteCluster.writes))
      ⊤ (scanClusters last_obs start data clusters s) := by
  induction clusters generalizing before s with
  | nil =>
    rw [flatMap_nil, append_nil]
    exact h
  | cons c clusters ih =>
    rw [scanClusters, flatMap_cons, ← append_assoc]
    by_cases hover : s.wc_overlap = true
    · rw [if_pos hover]
      exact (h.writes c.writes).bind (fun s1 hs1 => ih hs1)
    · rw [if_neg hover]
      exact ⟨fun hs => absurd hs hover, h.recorded⟩

end Scan

/-- What the assertions at the end of `inExpectedData` need of the observation that the scan starts
from: it is of the past, and if it is the initial one and every write overlaps the read, then so do
the first and the last cluster. -/
structure Answerable (cs : List WriteCluster) (last_obs : Transaction) (start complete : ℕ) :
    Prop where
  order : last_obs.start ≤ last_obs.complete
  past : last_obs.complete ≤ start
  ends : (∀ c ∈ cs, ∀ u ∈ c.writes, start < u.complete) →
    (∀ c, cs.head? = some c → c.start < complete) ∧ ∀ c, cs.getLast? = some c → start < c.complete

/-- The three ways in which a value that a read returned can be expected, for the write clusters
`cs` and the observation `last_obs` that the scan starts from. -/
inductive Expected (cs : List WriteCluster) (last_obs : Transaction) (start complete : ℕ)
    (data : UInt8) : Prop
  /-- A write, with no younger cluster that has a write from before the read. -/
  | write {older younger : List WriteCluster} {c : WriteCluster} {t : Transaction}
      (clusters : cs = older ++ c :: younger) (mem : t ∈ c.writes)
      (value : t.data = data) (counts : last_obs.start ≤ t.complete)
      (last : ∀ d ∈ younger, ∀ u ∈ d.writes, start < u.complete)
  /-- The last observation, with no write between it and the read. -/
  | observation (real : last_obs.complete ≠ TICK_INITIAL) (before : last_obs.complete ≤ start)
      (value : last_obs.data = data)
      (unwritten : ∀ c ∈ cs, ∀ u ∈ c.writes, u.complete ≤ start → u.start ≤ last_obs.complete)
  /-- Nothing is known: no observation, and no write that does not overlap the read. -/
  | anything (initial : last_obs.complete = TICK_INITIAL)
      (overlap : ∀ c ∈ cs, ∀ u ∈ c.writes, start < u.complete)
      (first : ∀ c, cs.head? = some c → c.start < complete)
      (last : ∀ c, cs.getLast? = some c → start < c.complete)

variable {tr : ByteTracker} {last_obs : Transaction} {start complete : ℕ} {data : UInt8}

theorem otherSources_of_scan
    (h : Expected tr.writeClusters last_obs start complete data)
    (hscan : scanClusters last_obs start data tr.writeClusters.reverse
      ⟨true, last_obs.complete != TICK_INITIAL, []⟩ = .ok s) :
    Ok (fun r => r.1 = true) ⊥ (tr.otherSources last_obs start complete data s) := by
  obtain ⟨writes, hwrites, hpassed⟩ := (scanClusters_spec _ _).elim hscan
  have hclusters : ∀ t ∈ writes, ∃ c ∈ tr.writeClusters, t ∈ c.writes := by
    intro t ht
    obtain ⟨c, hc, ht⟩ := hwrites t ht
    exact ⟨c, mem_reverse.mp hc, ht⟩
  rw [otherSources]
  cases h with
  | @write older younger c t clusters mem value counts last =>
    have hyounger : ∀ d ∈ younger.reverse, ∀ u ∈ d.writes, start < u.complete :=
      fun d hd => last d (mem_reverse.mp hd)
    have hfound := scanClusters_finds mem value counts older.reverse hyounger
      (s := ⟨true, last_obs.complete != TICK_INITIAL, []⟩) rfl
    rw [clusters, reverse_append, reverse_cons, append_assoc] at hscan
    exact absurd (hfound.elim hscan) id
  | observation real before value unwritten =>
    have hvalid : s.last_obs_valid = true := by
      rw [hpassed.valid]
      · simpa using real
      · intro t ht hle
        obtain ⟨c, hc, ht⟩ := hclusters t ht
        exact unwritten c hc t ht hle
    rw [if_pos hvalid]
    refine Ok.passes (decide_eq_true before) ?_
    rw [if_pos value]
    rfl
  | anything initial overlap first last =>
    have hover : s.wc_overlap = true := hpassed.overlap (fun t ht => by
      obtain ⟨c, hc, ht⟩ := hclusters t ht
      exact overlap c hc t ht)
    have hvalid : s.last_obs_valid = false := by
      rw [hpassed.valid]
      · simpa using initial
      · intro t ht hle
        obtain ⟨c, hc, ht⟩ := hclusters t ht
        exact absurd (overlap c hc t ht) (not_lt.mpr hle)
    rw [if_neg (by simp [hvalid]), if_pos hover]
    cases hcs : tr.writeClusters with
    | nil =>
      rw [hcs] at hscan
      cases hscan
      simp [verdict, initial]
    | cons c cs =>
      rw [hcs] at first last
      have hlast := last _ (getLast?_eq_some_getLast (cons_ne_nil c cs))
      simp [getLast?_eq_some_getLast (cons_ne_nil c cs), first c rfl, hlast]

theorem otherSources_returns
    (h : Answerable tr.writeClusters last_obs start complete)
    (hscan : scanClusters last_obs start data tr.writeClusters.reverse
      ⟨true, last_obs.complete != TICK_INITIAL, []⟩ = .ok s) :
    Ok ⊤ ⊥ (tr.otherSources last_obs start complete data s) := by
  have hstart : Scanned last_obs start (last_obs.complete != TICK_INITIAL) []
      ⟨true, last_obs.complete != TICK_INITIAL, []⟩ :=
    ⟨fun _ => ⟨rfl, fun _ ht => absurd ht not_mem_nil⟩, fun hs => absurd hs (by simp)⟩
  have hs := (hstart.clusters tr.writeClusters.reverse).elim hscan
  rw [otherSources]
  by_cases hvalid : s.last_obs_valid = true
  · rw [if_pos hvalid]
    refine Ok.passes (decide_eq_true h.past) ?_
    split_ifs
    · trivial
    · simp [verdict]
  · rw [if_neg hvalid]
    by_cases hover : s.wc_overlap = true
    · rw [if_pos hover]
      obtain ⟨hsame, hwrites⟩ := hs.doubt hover
      have hinitial : last_obs.complete = TICK_INITIAL := by simpa [hsame] using hvalid
      have hzero : last_obs.start = 0 := Nat.le_zero.mp (h.order.trans (le_of_eq hinitial))
      obtain ⟨hfirst, hlast⟩ := h.ends (fun c hc u hu => by
        refine hwrites u (mem_flatMap.mpr ⟨c, mem_reverse.mpr hc, hu⟩) ?_
        rw [hzero]
        exact Nat.zero_le _)
      cases hcs : tr.writeClusters with
      | nil => cases hexp : s.expected <;> simp [verdict, hinitial]
      | cons c cs =>
        rw [hcs] at hfirst hlast
        have hlast := hlast _ (getLast?_eq_some_getLast (cons_ne_nil c cs))
        simp [getLast?_eq_some_getLast (cons_ne_nil c cs), hfirst c rfl, hlast]
    · rw [if_neg hover, verdict, if_neg]
      · trivial
      · simpa using hs.recorded (Bool.eq_false_iff.mpr hover)

theorem inExpectedData_spec (fits : Prop) (hne : tr.readObservations ≠ [])
    (h : ∀ dropped last_obs rest, tr.readObservations = dropped ++ last_obs :: rest →
      (dropped = [] ∨ last_obs.complete < start) →
        Answerable tr.writeClusters last_obs start complete
          ∧ (fits → Expected tr.writeClusters last_obs start complete data)) :
    Ok (fun r => fits → r.1 = true) ⊥ (tr.inExpectedData start complete data) := by
  rw [inExpectedData]
  refine ((lastCompletedTransaction_spec _ _ _).mono (fun _ h => h) (fun _ h => hne h)).bind ?_
  rintro r ⟨dropped, last_obs, rest, hobs, rfl, hstop⟩
  obtain ⟨hanswer, hexp⟩ := h dropped last_obs rest hobs hstop
  simp only
  cases hscan : scanClusters last_obs start data tr.writeClusters.reverse
      ⟨true, last_obs.complete != TICK_INITIAL, []⟩ with
  | error expected => exact fun _ => rfl
  | ok s =>
    by_cases hfits : fits
    · exact (otherSources_of_scan (hexp hfits) hscan).imp (fun _ hr _ => hr)
    · exact (otherSources_returns hanswer hscan).imp (fun _ _ hf => absurd hf hfits)

end ByteTracker

end MemChecker

/-! ## The checker -/

open MemChecker

/-- A `MemChecker`. A byte without a tracker gets one when it is first used: the map is total. -/
structure MemChecker where
  nextSerial : ℕ := SERIAL_INITIAL
  byte_trackers : ℕ → ByteTracker := fun _ => {}
  errorMessage : String := ""

namespace MemChecker

/-- A loop over the bytes `addr`, …, `addr + size - 1`. -/
def forBytes (m : MemChecker) (addr size : ℕ)
    (f : ℕ → ByteTracker → Except Fault ByteTracker) : Except Fault MemChecker :=
  (List.range size).foldlM (fun m i => do
    let tr ← f i (m.byte_trackers (addr + i))
    pure { m with byte_trackers := Function.update m.byte_trackers (addr + i) tr }) m

/-- `startRead`, with the serial that it returns. -/
def startRead (m : MemChecker) (start addr size : ℕ) : Except Fault (ℕ × MemChecker) := do
  let m ← m.forBytes addr size (fun _ tr => pure (tr.startRead m.nextSerial start))
  pure (m.nextSerial, { m with nextSerial := m.nextSerial + 1 })

def startWrite (m : MemChecker) (start addr : ℕ) (data : List UInt8) :
    Except Fault (ℕ × MemChecker) := do
  let m ← m.forBytes addr data.length
    (fun i tr => tr.startWrite m.nextSerial start (data.getD i DATA_INITIAL))
  pure (m.nextSerial, { m with nextSerial := m.nextSerial + 1 })

def completeWrite (m : MemChecker) (curTick serial complete addr size : ℕ) :
    Except Fault MemChecker :=
  m.forBytes addr size (fun _ tr => tr.completeWrite curTick serial complete)

def abortWrite (m : MemChecker) (serial addr size : ℕ) : Except Fault MemChecker :=
  m.forBytes addr size (fun _ tr => pure (tr.abortWrite serial))

/-- `%#x`. -/
def hex (n : ℕ) : String :=
  if n = 0 then "0" else "0x" ++ String.ofList (Nat.toDigits 16 n)

/-- The line of the error message for one byte. -/
def failureText (addr : ℕ) (data : UInt8) (expected : List UInt8) : String :=
  "  Read transaction for address " ++ hex addr ++ " failed: received " ++ hex data.toNat
    ++ ", expected " ++ "|".intercalate (expected.map (fun d => hex d.toNat))

/-- One byte of `completeRead`. -/
def completeByte (curTick serial complete addr : ℕ) (data : List UInt8)
    (s : Bool × MemChecker) (i : ℕ) : Except Fault (Bool × MemChecker) := do
  let value := data.getD i DATA_INITIAL
  let r ← (s.2.byte_trackers (addr + i)).completeRead curTick serial complete value
  let m := { s.2 with byte_trackers := Function.update s.2.byte_trackers (addr + i) r.2 }
  let text := failureText (addr + i) value r.2._lastExpectedData
  if r.1 then
    pure (s.1, m)
  else if s.1 then
    pure (false, { m with errorMessage := text })
  else
    pure (false, { m with errorMessage := m.errorMessage ++ "\n" ++ text })

def completeRead (m : MemChecker) (curTick serial complete addr : ℕ) (data : List UInt8) :
    Except Fault (Bool × MemChecker) :=
  (List.range data.length).foldlM (completeByte curTick serial complete addr data) (true, m)

end MemChecker

end Bindu.Mem
