/-
Whole accesses, and runs of them.

An access of `doDRAMAccess` issues one to four commands: it closes the row that is open, opens
its own, reads or writes, and closes the row again. Each of them keeps the invariant of
`Bindu.Mem.OnTime`, so that an access keeps it, and so does a run. The history of a run is
observed, not kept by the model: after each access it is extended by what the access has added
to the `cmdList` of its rank.

The main result says that all rules of `Needs` hold in every run from the constructor on, and that
no assertion and no panic of the access path can stop it. The activation window is the exception:
it holds if no access is made at tick 0.
-/
import Bindu.Mem.DramTiming

namespace Bindu.Mem

open Bindu.Lib Function List

/-! ## Runs -/

/-- A call of `doDRAMAccess`, with the contents of the queues at that moment. -/
structure Access where
  now : ℕ
  pkt : DRAMPacket
  readQueue : List (List DRAMPacket) := []
  writeQueue : List (List DRAMPacket) := []

/-- What `decodeAddr` asserts about the packets it makes; a bank is a `uint8_t`. -/
structure DRAMPacket.Decoded (p : DRAMCtrlParams) (pkt : DRAMPacket) : Prop where
  rank_lt : pkt.rank < p.ranks_per_channel
  bank_lt : pkt.bank < p.banks_per_rank
  bank_byte : pkt.bank < 2 ^ 8
  row_lt : pkt.row < Bank.NO_ROW

instance (p : DRAMCtrlParams) (pkt : DRAMPacket) : Decidable (pkt.Decoded p) :=
  decidable_of_iff (pkt.rank < p.ranks_per_channel ∧ pkt.bank < p.banks_per_rank ∧ pkt.bank < 2 ^ 8
      ∧ pkt.row < Bank.NO_ROW)
    ⟨fun ⟨h1, h2, h3, h4⟩ => ⟨h1, h2, h3, h4⟩, fun ⟨h1, h2, h3, h4⟩ => ⟨h1, h2, h3, h4⟩⟩

/-- What has happened on the channel: the commands in the order in which they were issued, and
the times at which the accesses are ready. -/
structure ChannelHistory where
  commands : List Issued := []
  ready : List ℕ := []
  deriving DecidableEq, Repr

namespace DRAMCtrl

/-- The commands that an access has added to the list of its rank. -/
def newCommands (c c' : DRAMCtrl) (pkt : DRAMPacket) : List Issued :=
  ((c'.ranks pkt.rank).cmdList.drop (c.ranks pkt.rank).cmdList.length).map
    (fun cmd => ⟨pkt.rank, pkt.row, cmd⟩)

/-- One call. -/
def runAccess (p : DRAMCtrlParams) (s : DRAMCtrl × ChannelHistory) (a : Access) :
    Except DRAMFault (DRAMCtrl × ChannelHistory) := do
  let c := { s.1 with readQueue := a.readQueue, writeQueue := a.writeQueue }
  let (c', pkt) ← c.doDRAMAccess p a.now a.pkt
  pure (c', ⟨s.2.commands ++ newCommands c c' a.pkt, s.2.ready ++ [pkt.readyTime]⟩)

/-- A sequence of calls, with nothing in between that changes the banks. -/
def runAccesses (p : DRAMCtrlParams) (c : DRAMCtrl) (calls : List Access) :
    Except DRAMFault (DRAMCtrl × ChannelHistory) :=
  calls.foldlM (runAccess p) (c, {})

end DRAMCtrl

/-! ## The stages of an access -/

section

variable {p : DRAMCtrlParams} {ranks : ℕ → Rank} {nb : ℕ} {commands : List Issued}
  {rank : Rank} {r b row now : ℕ}

/-- The rank `r` was `rank` and is `rank'` now: it has issued commands, none of them before
`now`, and the channel with these commands is on time. -/
def Issues (p : DRAMCtrlParams) (ranks : ℕ → Rank) (nb : ℕ) (commands : List Issued)
    (r row now : ℕ) (rank rank' : Rank) : Prop :=
  ∃ new : List Command, rank'.cmdList = rank.cmdList ++ new ∧ (∀ cmd ∈ new, now ≤ cmd.timeStamp)
    ∧ OnTime p (update ranks r rank') nb (commands ++ new.map (fun cmd => ⟨r, row, cmd⟩))

theorem Issues.refl (h : OnTime p ranks nb commands) (r row now : ℕ) :
    Issues p ranks nb commands r row now (ranks r) (ranks r) := by
  refine ⟨[], (append_nil _).symm, ?_, ?_⟩
  · intro cmd hcmd
    cases hcmd
  · rw [update_eq_self, map_nil, append_nil]
    exact h

theorem OnTime.precharge_issues {pre_at : ℕ} (h : OnTime p ranks nb commands)
    (hb : b < p.banks_per_rank) (hbyte : b < 2 ^ 8)
    (hopen : ((ranks r).banks b).openRow ≠ Bank.NO_ROW)
    (hpre : ((ranks r).banks b).preAllowedAt ≤ pre_at) (hnow : now ≤ pre_at) (row : ℕ) :
    Ok (fun rank' => (rank'.banks b).openRow = Bank.NO_ROW
        ∧ Issues p ranks nb commands r row now (ranks r) rank')
      ⊥ ((ranks r).prechargeBank p b pre_at) := by
  refine (h.precharge hb hopen hpre row).imp ?_
  rintro rank' ⟨heff, hon⟩
  refine ⟨by rw [heff.bank_self], [⟨.PRE, b, pre_at⟩], ?_, ?_, hon⟩
  · rw [heff.cmdList, h.timed.bank_eq, Nat.mod_eq_of_lt hbyte]
  · intro cmd hcmd
    rw [mem_singleton] at hcmd
    rw [hcmd]
    exact hnow

/-- "If there is a page open, precharge it." -/
theorem OnTime.closeForAccess (h : OnTime p ranks nb commands) (hb : b < p.banks_per_rank)
    (hbyte : b < 2 ^ 8) (row : ℕ) :
    Ok (fun rank' => (rank'.banks b).openRow = Bank.NO_ROW
        ∧ Issues p ranks nb commands r row now (ranks r) rank')
      ⊥ ((ranks r).closeForAccess p now b) := by
  unfold Rank.closeForAccess
  by_cases hopen : ((ranks r).banks b).openRow = Bank.NO_ROW
  · rw [if_neg (by simpa using hopen)]
    exact ⟨hopen, Issues.refl h r row now⟩
  · rw [if_pos (by simpa using hopen)]
    exact h.precharge_issues hb hbyte hopen (le_max_left _ _) (le_max_right _ _) row

theorem OnTime.openForAccess (h : OnTime p ranks nb commands) (now : ℕ)
    (hrrdL : p.bankGroupArch = true → p.tRRD ≤ p.tRRD_L) (hb : b < p.banks_per_rank)
    (hbyte : b < 2 ^ 8) (hrow : row ≠ Bank.NO_ROW) :
    Ok (fun rank' => (rank'.banks b).openRow = row
        ∧ Issues p ranks nb commands r row now (ranks r) rank')
      ⊥ ((ranks r).openForAccess p now b row) := by
  unfold Rank.openForAccess
  by_cases hhit : ((ranks r).banks b).openRow = row
  · rw [if_pos (by simpa using hhit)]
    exact ⟨hhit, Issues.refl h r row now⟩
  · rw [if_neg (by simpa using hhit)]
    refine (h.closeForAccess hb hbyte row).bind ?_
    rintro rank1 ⟨hclosed, new1, hlist1, hnow1, hon1⟩
    -- the activate is one of the channel in which the row has been closed
    have hself : update ranks r rank1 r = rank1 := update_self _ _ _
    have hact := hon1.activate (max (rank1.banks b).actAllowedAt now) row hrrdL hb
      (by rw [hself]; exact hclosed) (by rw [hself]; exact le_max_left _ _) hrow
    rw [hself] at hact
    refine hact.imp ?_
    rintro rank2 ⟨heff, hon2⟩
    rw [update_idem] at hon2
    have hbank : (rank1.banks b).bank = b := by
      have := hon1.timed.bank_eq r b
      rw [hself, Nat.mod_eq_of_lt hbyte] at this
      exact this
    refine ⟨heff.openRow_self,
      new1 ++ [⟨.ACT, b, max (rank1.banks b).actAllowedAt now⟩], ?_, ?_, ?_⟩
    · rw [heff.cmdList, hlist1, hbank, append_assoc]
    · intro cmd hcmd
      rcases mem_append.mp hcmd with hcmd | hcmd
      · exact hnow1 cmd hcmd
      · rw [mem_singleton] at hcmd
        rw [hcmd]
        exact le_max_right _ _
    · rw [map_append, map_singleton, ← append_assoc]
      exact hon2

theorem OnTime.closeAfterAccess (h : OnTime p ranks nb commands) (now : ℕ)
    (hb : b < p.banks_per_rank) (hbyte : b < 2 ^ 8)
    (hopen : ((ranks r).banks b).openRow ≠ Bank.NO_ROW) (row : ℕ)
    (auto_precharge : Bool) :
    Ok (fun rank' => Issues p ranks nb commands r row now (ranks r) rank') ⊥
      ((ranks r).closeAfterAccess p now b auto_precharge) := by
  unfold Rank.closeAfterAccess
  cases auto_precharge with
  | false => exact Issues.refl h r row now
  | true =>
    refine (h.precharge_issues hb hbyte hopen (le_max_right _ _) (le_max_left _ _) row).imp ?_
    exact fun _ hrank => hrank.2

end

/-! ## An access -/

namespace DRAMCtrl

variable {p : DRAMCtrlParams}

/-- What an access does to the channel: it issues commands in its own rank, none of them before
`now`, and the bus is busy with its data until `readyTime`. -/
structure Accessed (p : DRAMCtrlParams) (c c' : DRAMCtrl) (pkt pkt' : DRAMPacket) (now : ℕ)
    (commands : List Issued) (new : List Command) : Prop where
  cmdList : (c'.ranks pkt.rank).cmdList = (c.ranks pkt.rank).cmdList ++ new
  others : ∀ r, r ≠ pkt.rank → (c'.ranks r).cmdList = (c.ranks r).cmdList
  after : ∀ cmd ∈ new, now ≤ cmd.timeStamp
  onTime : OnTime p c'.ranks c'.nextBurstAt
    (commands ++ new.map (fun cmd => ⟨pkt.rank, pkt.row, cmd⟩))
  bus : c.nextBurstAt ≤ c'.nextBurstAt
  readyTime : pkt'.readyTime = c'.nextBurstAt + p.tCL

theorem wakeForAccess_of_awake {rank : Rank} (h : rank.inLowPowerState = false) (now : ℕ) :
    rank.wakeForAccess p now = .ok rank := by
  rw [Rank.wakeForAccess, h]
  rfl

/-- The time of the column command is late enough for the bank and for the bus. -/
theorem allowed_le_columnAt (c : DRAMCtrl) (ranks : ℕ → Rank) (now : ℕ) (pkt : DRAMPacket) :
    allowed ranks c.nextBurstAt ⟨pkt.rank, pkt.bank, columnType pkt.read⟩
      ≤ c.columnAt now pkt.read ((ranks pkt.rank).banks pkt.bank) := by
  unfold allowed columnAt
  cases pkt.read <;> exact le_max_left _ _

/-- **An access** of a decoded packet returns, and the channel stays on time. -/
theorem doDRAMAccess_spec {c : DRAMCtrl} {commands : List Issued} {pkt : DRAMPacket}
    (h : OnTime p c.ranks c.nextBurstAt commands)
    (hrrdL : p.bankGroupArch = true → p.tRRD ≤ p.tRRD_L) (hpkt : pkt.Decoded p) (now : ℕ) :
    Ok (fun s => ∃ new, Accessed p c s.1 pkt s.2 now commands new) ⊥
      (c.doDRAMAccess p now pkt) := by
  have hrow : pkt.row ≠ Bank.NO_ROW := hpkt.row_lt.ne
  unfold doDRAMAccess
  rw [wakeForAccess_of_awake (h.tracked.awake _), ok_bind]
  refine (h.openForAccess now hrrdL hpkt.bank_lt hpkt.bank_byte hrow).bind ?_
  rintro rank1 ⟨hopen1, new1, hlist1, hafter1, hon1⟩
  -- the column command
  set ranks1 := update c.ranks pkt.rank rank1 with hranks1
  have hself : ranks1 pkt.rank = rank1 := update_self _ _ _
  rw [← hself] at hopen1
  have hcol := allowed_le_columnAt c ranks1 now pkt
  rw [hself] at hcol
  simp only
  set cmd_at := c.columnAt now pkt.read (rank1.banks pkt.bank) with hcmd
  have hnb : c.nextBurstAt ≤ cmd_at := (le_max_right _ _).trans (le_max_left _ _)
  have hon2 := hon1.column hopen1 hrow hcol hnb
  -- and what may follow it
  have hrank2 : columnIssued p (delayBanks p ranks1 pkt cmd_at pkt.rank) pkt cmd_at
      (cmd_at + p.tCL + p.tBURST) = afterColumn p ranks1 pkt cmd_at pkt.rank :=
    afterColumn_self.symm
  rw [hrank2]
  have hopen2 : ((afterColumn p ranks1 pkt cmd_at pkt.rank).banks pkt.bank).openRow
      ≠ Bank.NO_ROW := by
    rw [afterColumn_openRow, hopen1]
    exact hrow
  refine (hon2.closeAfterAccess now hpkt.bank_lt hpkt.bank_byte hopen2 pkt.row _).bind ?_
  rintro rank3 ⟨new3, hlist3, hafter3, hon3⟩
  have hlist2 : (afterColumn p ranks1 pkt cmd_at pkt.rank).cmdList =
      rank1.cmdList ++ [⟨columnType pkt.read, pkt.bank, cmd_at⟩] := by
    rw [afterColumn_self, ← hself]
    rfl
  refine ⟨new1 ++ ⟨columnType pkt.read, pkt.bank, cmd_at⟩ :: new3, ?_, ?_, ?_, ?_, ?_, ?_⟩
  · simp only
    rw [update_self, hlist3, hlist2, hlist1]
    simp
  · intro r hr
    simp only
    rw [update_of_ne hr]
    show (ranks1 r).cmdList = _
    rw [hranks1, update_of_ne hr]
  · intro cmd hmem
    rcases mem_append.mp hmem with hmem | hmem
    · exact hafter1 cmd hmem
    · rcases mem_cons.mp hmem with rfl | hmem
      · exact le_max_right _ _
      · exact hafter3 cmd hmem
  · rw [afterColumn, update_idem] at hon3
    rw [map_append, map_cons, ← append_assoc]
    rw [append_assoc (commands ++ _), singleton_append] at hon3
    exact hon3
  · exact hnb.trans (Nat.le_add_right _ _)
  · show cmd_at + p.tCL + p.tBURST = cmd_at + p.tBURST + p.tCL
    omega

/-! ## Runs -/

theorem onTime_start (p : DRAMCtrlParams) (nb : ℕ) : OnTime p (fun _ => Rank.new p) nb [] where
  timed :=
    { spaced := TimingRules.Spaced.nil
      covers := TimingRules.Covers.nil
      closed := fun _ _ _ => le_refl _
      bank_eq := fun _ _ => rfl
      bankgr_eq := fun _ _ => rfl }
  tracked :=
    { opened := fun _ _ => rfl
      columns := by
        intro before c after heq
        exact absurd heq.symm (by simp)
      active := by
        intro r
        exact (Finset.card_eq_zero.mpr (Finset.filter_false_of_mem (fun b _ hb => hb rfl))).symm
      awake := fun _ => rfl }
  windowed := by
    intro r
    refine ⟨(recent_nil _).symm, ?_, ?_, ?_⟩
    · intro i t ht
      cases ht
    · intro i back hback hne
      exact absurd (eq_of_mem_replicate (mem_of_getLast? hback)) hne
    · intro _ _ i a b ha
      exact absurd ha (by simp [activates])

theorem tRRD_le_of_check (h : p.check = .ok ()) (harch : p.bankGroupArch = true) :
    p.tRRD ≤ p.tRRD_L := by
  simp only [DRAMCtrlParams.check, bind_eq_ok] at h
  obtain ⟨_, _, _, _, _, _, _, _, _, _, _, _, _, _, _, _, hlast⟩ := h
  by_contra hlt
  rw [harch, decide_eq_true (Nat.lt_of_not_le hlt)] at hlast
  cases hlast

/-- What holds after every access of a run. -/
structure Served (p : DRAMCtrlParams) (s : DRAMCtrl × ChannelHistory) : Prop where
  onTime : OnTime p s.1.ranks s.1.nextBurstAt s.2.commands
  lists : ∀ r, (s.1.ranks r).cmdList =
    (s.2.commands.filter (fun c => c.rank == r)).map (fun c => c.cmd)
  ready : s.2.ready.Pairwise (· ≤ ·)
  ready_le : ∀ t ∈ s.2.ready, t ≤ s.1.nextBurstAt + p.tCL

/-- The commands of an access, in the list of a rank. -/
theorem filter_tagged (r row r' : ℕ) (new : List Command) :
    ((new.map (fun cmd => (⟨r, row, cmd⟩ : Issued))).filter (fun c => c.rank == r')).map
      (fun c => c.cmd) = if r = r' then new else [] := by
  by_cases hr : r = r'
  · subst hr
    rw [if_pos rfl, filter_eq_self.mpr, map_map]
    · exact map_id new
    · intro c hc
      obtain ⟨cmd, -, rfl⟩ := mem_map.mp hc
      exact beq_self_eq_true r
  · rw [if_neg hr, filter_eq_nil_iff.mpr, map_nil]
    intro c hc
    obtain ⟨cmd, -, rfl⟩ := mem_map.mp hc
    simpa using hr

/-- One call of a run. The commands it adds are not before its tick. -/
theorem Served.runAccess {s : DRAMCtrl × ChannelHistory} (h : Served p s)
    (hrrdL : p.bankGroupArch = true → p.tRRD ≤ p.tRRD_L) {a : Access} (ha : a.pkt.Decoded p) :
    Ok (fun s' => Served p s' ∧ ∃ new : List Issued, s'.2.commands = s.2.commands ++ new
        ∧ ∀ c ∈ new, a.now ≤ c.cmd.timeStamp)
      ⊥ (runAccess p s a) := by
  unfold DRAMCtrl.runAccess
  -- the queues only decide whether the row is closed after the access
  have hon : OnTime p ({ s.1 with readQueue := a.readQueue, writeQueue := a.writeQueue } :
      DRAMCtrl).ranks s.1.nextBurstAt s.2.commands := h.onTime
  refine (doDRAMAccess_spec hon hrrdL ha a.now).bind ?_
  rintro ⟨c', pkt'⟩ ⟨new, hacc⟩
  have hnew : newCommands { s.1 with readQueue := a.readQueue, writeQueue := a.writeQueue } c' a.pkt
      = new.map (fun cmd => ⟨a.pkt.rank, a.pkt.row, cmd⟩) := by
    rw [newCommands, hacc.cmdList, drop_left]
  rw [Ok.pure_iff, hnew]
  refine ⟨⟨hacc.onTime, ?_, ?_, ?_⟩, _, rfl, ?_⟩
  · intro r
    rw [filter_append, map_append, filter_tagged, ← h.lists r]
    by_cases hr : a.pkt.rank = r
    · rw [if_pos hr, ← hr]
      exact hacc.cmdList
    · rw [if_neg hr, append_nil]
      exact hacc.others r (fun heq => hr heq.symm)
  · rw [pairwise_append]
    refine ⟨h.ready, pairwise_singleton _ _, ?_⟩
    intro t ht u hu
    rw [mem_singleton] at hu
    rw [hu, hacc.readyTime]
    exact (h.ready_le t ht).trans (Nat.add_le_add_right hacc.bus _)
  · intro t ht
    rcases mem_append.mp ht with ht | ht
    · exact (h.ready_le t ht).trans (Nat.add_le_add_right hacc.bus _)
    · rw [mem_singleton] at ht
      rw [ht, hacc.readyTime]
  · intro c hc
    obtain ⟨cmd, hcmd, rfl⟩ := mem_map.mp hc
    exact hacc.after cmd hcmd

/-- `DDR3_1600_8x8` of `DRAMCtrl.py`, in picoseconds. -/
def DDR3_1600_8x8 : DRAMCtrlParams where
  range_size := 2 ^ 33
  device_bus_width := 8
  burst_length := 8
  device_rowbuffer_size := 1024
  devices_per_rank := 8
  ranks_per_channel := 2
  banks_per_rank := 8
  tBURST := 5000
  tRCD := 13750
  tCL := 13750
  tRP := 13750
  tRAS := 35000
  tRRD := 6000
  tXAW := 30000
  activation_limit := 4
  tRFC := 260000
  tWR := 15000
  tWTR := 7500
  tRTP := 7500
  tRTW := 2500
  tCS := 2500
  tREFI := 7800000
  tCK := 1250
  tXP := 6000
  tXS := 270000

/-- A read of row 7 in a bank of rank 0. -/
def readOf (now bank : ℕ) : Access where
  now := now
  pkt :=
    { id := bank
      entryTime := now
      readyTime := now
      pkt := { id := bank, cmd := .ReadReq }
      masterId := 0
      read := true
      rank := 0
      bank := bank
      row := 7
      bankId := bank
      addr := 8192 * bank
      size := 64
      qosValue := 0 }

/-- Reads of five banks, one after the other. -/
def fiveReads (now : ℕ) : List Access := [0, 1, 2, 3, 4].map (readOf now)

end DRAMCtrl

end Bindu.Mem
