/-
The timing of DRAM commands.

The claim of a DRAM data sheet is about pairs of commands, however far apart: an activate keeps
the next activate of its rank away for `tRRD`, a precharge the next activate of its bank for
`tRP`, and so on. `Needs` is that table. The controller has no table of the past. It has four
times for every bank, one time for the bus and the ticks of the last activates of a rank, and
these are the scoreboard of `Bindu.Lib.TimingRules`: no command is placed before the time of
its class, and every command raises the times that the table asks for.

Two of the times are overwritten, not raised. A precharge sets `preAllowedAt` to its own tick,
which is not earlier than what was there. An activate sets it to `tRAS` after itself, and here it
matters that the bank is closed: what held back a precharge of a closed bank also holds back
its activate (`Timed.closed`).

The limit on the activates in a window of `tXAW` is a property of longer sequences and has its
own invariant, `Windowed`. The queue of the last ticks is filled with zeros at the start, and a
zero is taken for "no activate yet". An activate at tick 0 is therefore not counted.
-/
import Bindu.Lib.Scoreboard
import Bindu.Mem.DramCtrl

namespace Bindu.Mem

open Bindu.Lib Function List Bank Rank

/-! ## The rules -/

/-- A command on the channel: the rank it is for, the row of the access that issued it, and
the command as the rank has it in its `cmdList`. -/
structure Issued where
  rank : ℕ
  row : ℕ
  cmd : Command
  deriving DecidableEq, Repr

/-- What a command is for: a bank, and what is done there. -/
structure Slot where
  rank : ℕ
  bank : ℕ
  type : MemCommand
  deriving DecidableEq, Repr

/-- Reads and writes are the column commands. -/
def MemCommand.isColumn : MemCommand → Bool
  | .RD | .WR => true
  | _ => false

/-- `Needs p c k n`: after the command `c`, one for `k` is at least `n` ticks later. -/
inductive Needs (p : DRAMCtrlParams) (c : Issued) (k : Slot) : ℕ → Prop
  | tRRD : c.cmd.type = .ACT → k.type = .ACT → c.rank = k.rank → Needs p c k p.tRRD
  | tRRD_L : c.cmd.type = .ACT → k.type = .ACT → c.rank = k.rank → p.bankGroupArch = true →
      p.bankgr c.cmd.bank = p.bankgr k.bank → Needs p c k p.tRRD_L
  | tRP : c.cmd.type = .PRE → k.type = .ACT → c.rank = k.rank → c.cmd.bank = k.bank →
      Needs p c k p.tRP
  | tRAS : c.cmd.type = .ACT → k.type = .PRE → c.rank = k.rank → c.cmd.bank = k.bank →
      Needs p c k p.tRAS
  | tRTP : c.cmd.type = .RD → k.type = .PRE → c.rank = k.rank → c.cmd.bank = k.bank →
      Needs p c k p.tRTP
  -- the data of a write is on the bus from `tCL` to `tCL + tBURST` after the command
  | tWR : c.cmd.type = .WR → k.type = .PRE → c.rank = k.rank → c.cmd.bank = k.bank →
      Needs p c k (p.tCL + p.tBURST + p.tWR)
  | tRCD : c.cmd.type = .ACT → k.type.isColumn = true → c.rank = k.rank → c.cmd.bank = k.bank →
      Needs p c k p.tRCD
  | tBURST : c.cmd.type.isColumn = true → k.type.isColumn = true → Needs p c k p.tBURST
  | tCCD_L : c.cmd.type.isColumn = true → k.type.isColumn = true →
      ¬ (c.cmd.type = .WR ∧ k.type = .WR) → c.rank = k.rank → p.bankGroupArch = true →
      p.bankgr c.cmd.bank = p.bankgr k.bank → Needs p c k p.tCCD_L
  | tCCD_L_WR : c.cmd.type = .WR → k.type = .WR → c.rank = k.rank → p.bankGroupArch = true →
      p.bankgr c.cmd.bank = p.bankgr k.bank → Needs p c k p.tCCD_L_WR
  | tCS : c.cmd.type.isColumn = true → k.type.isColumn = true → c.rank ≠ k.rank →
      Needs p c k (p.tCS + p.tBURST)

/-- The rules as an instance of the library. -/
def dramRules (p : DRAMCtrlParams) : TimingRules Issued Slot where
  time c := c.cmd.timeStamp
  slot c := ⟨c.rank, c.cmd.bank, c.cmd.type⟩
  need := Needs p

/-- The ticks of the activates of a rank. -/
def activates (commands : List Issued) (r : ℕ) : List ℕ :=
  (commands.filter (fun c => c.rank == r && c.cmd.type == .ACT)).map (fun c => c.cmd.timeStamp)

/-- The row that the commands leave open in a bank. -/
def openRowOf (commands : List Issued) (r b : ℕ) : ℕ :=
  commands.foldl (fun row c =>
    if c.rank = r ∧ c.cmd.bank = b then
      match c.cmd.type with
      | .ACT => c.row
      | .PRE => NO_ROW
      | _ => row
    else row) NO_ROW

/-- Every column command finds the row of its access open. -/
def ColumnsOpen (commands : List Issued) : Prop :=
  ∀ before c after, commands = before ++ c :: after → c.cmd.type.isColumn = true →
    openRowOf before c.rank c.cmd.bank = c.row

/-! ## The scoreboard -/

/-- The time of a class of commands. -/
def allowed (ranks : ℕ → Rank) (nextBurstAt : ℕ) (k : Slot) : ℕ :=
  let bank := (ranks k.rank).banks k.bank
  match k.type with
  | .ACT => bank.actAllowedAt
  | .PRE => bank.preAllowedAt
  | .RD => max bank.rdAllowedAt nextBurstAt
  | .WR => max bank.wrAllowedAt nextBurstAt
  | _ => 0

/-- What a command may do to a bank: no time becomes earlier, the constants stay, and the bank
is not left closed with a precharge that waits longer than its activate. -/
structure Bank.Advances (a b : Bank) : Prop where
  rd : a.rdAllowedAt ≤ b.rdAllowedAt
  wr : a.wrAllowedAt ≤ b.wrAllowedAt
  pre : a.preAllowedAt ≤ b.preAllowedAt
  act : a.actAllowedAt ≤ b.actAllowedAt
  bank : b.bank = a.bank
  bankgr : b.bankgr = a.bankgr
  closed : b.openRow = NO_ROW → (a.openRow = NO_ROW → a.preAllowedAt ≤ a.actAllowedAt) →
    b.preAllowedAt ≤ b.actAllowedAt

theorem Bank.Advances.refl (a : Bank) : a.Advances a :=
  ⟨le_refl _, le_refl _, le_refl _, le_refl _, rfl, rfl, fun hclosed h => h hclosed⟩

theorem allowed_mono {ranks ranks' : ℕ → Rank} {nb nb' : ℕ}
    (hbanks : ∀ r b, ((ranks r).banks b).Advances ((ranks' r).banks b)) (hnb : nb ≤ nb')
    (k : Slot) : allowed ranks nb k ≤ allowed ranks' nb' k := by
  have hbank := hbanks k.rank k.bank
  unfold allowed
  cases k.type with
  | ACT => exact hbank.act
  | PRE => exact hbank.pre
  | RD => exact max_le_max hbank.rd hnb
  | WR => exact max_le_max hbank.wr hnb
  | PUP_ACT | PUP_PRE | SREX | PDN_F_ACT | PDN_F_PRE => exact le_refl _

/-- A step that changes one rank. -/
theorem advances_update {ranks : ℕ → Rank} {r : ℕ} {rank' : Rank}
    (h : ∀ i, ((ranks r).banks i).Advances (rank'.banks i)) (r' b : ℕ) :
    ((ranks r').banks b).Advances ((update ranks r rank' r').banks b) :=
  (forall_update_iff ranks fun r' rank => ∀ b, ((ranks r').banks b).Advances (rank.banks b)).mpr
    ⟨h, fun _ _ _ => Advances.refl _⟩ r' b

/-- The times of the banks cover the commands so far, and the constants of the banks are what
the constructor made them. -/
structure Timed (p : DRAMCtrlParams) (ranks : ℕ → Rank) (nextBurstAt : ℕ)
    (commands : List Issued) : Prop where
  spaced : (dramRules p).Spaced commands
  covers : (dramRules p).Covers (allowed ranks nextBurstAt) commands
  -- a closed bank has been idle for long enough: its activate waits at least as long as its
  -- precharge would
  closed : ∀ r b, ((ranks r).banks b).openRow = NO_ROW →
    ((ranks r).banks b).preAllowedAt ≤ ((ranks r).banks b).actAllowedAt
  bank_eq : ∀ r b, ((ranks r).banks b).bank = b % 2 ^ 8
  bankgr_eq : ∀ r b, ((ranks r).banks b).bankgr = p.bankgr b

/-- A command that waits for the time of its class, and raises the times that it has to. -/
theorem Timed.issue {p : DRAMCtrlParams} {ranks ranks' : ℕ → Rank} {nb nb' : ℕ}
    {commands : List Issued} {d : Issued} (h : Timed p ranks nb commands)
    (hd : allowed ranks nb ⟨d.rank, d.cmd.bank, d.cmd.type⟩ ≤ d.cmd.timeStamp)
    (hbanks : ∀ r b, ((ranks r).banks b).Advances ((ranks' r).banks b)) (hnb : nb ≤ nb')
    (hneed : ∀ k n, Needs p d k n → d.cmd.timeStamp + n ≤ allowed ranks' nb' k) :
    Timed p ranks' nb' (commands ++ [d]) where
  spaced := h.spaced.issue h.covers hd
  covers := h.covers.issue (allowed_mono hbanks hnb) hneed
  closed r b hclosed := (hbanks r b).closed hclosed (h.closed r b)
  bank_eq r b := (hbanks r b).bank.trans (h.bank_eq r b)
  bankgr_eq r b := (hbanks r b).bankgr.trans (h.bankgr_eq r b)

/-- The activates of a rank are spread over windows of `tXAW`. -/
structure Windowed (p : DRAMCtrlParams) (rank : Rank) (acts : List ℕ) : Prop where
  ticks : rank.actTicks = recent p.activation_limit acts
  past : ∀ i, ∀ t ∈ acts, t ≤ (rank.banks i).actAllowedAt
  window : ∀ i back, rank.actTicks.getLast? = some back → back ≠ 0 →
    back + p.tXAW ≤ (rank.banks i).actAllowedAt
  sparse : 0 < p.activation_limit → (∀ t ∈ acts, t ≠ 0) → Sparse p.activation_limit p.tXAW acts

/-- How many banks have a row open. -/
def openCount (p : DRAMCtrlParams) (rank : Rank) : ℕ :=
  ((Finset.range p.banks_per_rank).filter (fun b => (rank.banks b).openRow ≠ NO_ROW)).card

/-- The state of the banks is the one that the commands lead to. -/
structure Tracked (p : DRAMCtrlParams) (ranks : ℕ → Rank) (commands : List Issued) : Prop where
  opened : ∀ r b, ((ranks r).banks b).openRow = openRowOf commands r b
  columns : ColumnsOpen commands
  active : ∀ r, (ranks r).numBanksActive = openCount p (ranks r)
  awake : ∀ r, (ranks r).inLowPowerState = false

/-- The invariant of the channel. -/
structure OnTime (p : DRAMCtrlParams) (ranks : ℕ → Rank) (nextBurstAt : ℕ)
    (commands : List Issued) : Prop where
  timed : Timed p ranks nextBurstAt commands
  tracked : Tracked p ranks commands
  windowed : ∀ r, Windowed p (ranks r) (activates commands r)

/-! ### Traces that grow -/

theorem activates_concat (commands : List Issued) (r : ℕ) (c : Issued) :
    activates (commands ++ [c]) r =
      if c.rank = r ∧ c.cmd.type = .ACT then activates commands r ++ [c.cmd.timeStamp]
      else activates commands r := by
  unfold activates
  rw [filter_append, map_append]
  split_ifs with hc
  · simp [hc.1, hc.2]
  · rw [filter_cons_of_neg (by simpa using hc), filter_nil, map_nil, append_nil]

theorem openRowOf_concat (commands : List Issued) (r b : ℕ) (c : Issued) :
    openRowOf (commands ++ [c]) r b =
      if c.rank = r ∧ c.cmd.bank = b then
        match c.cmd.type with
        | .ACT => c.row
        | .PRE => NO_ROW
        | _ => openRowOf commands r b
      else openRowOf commands r b := by
  unfold openRowOf
  rw [foldl_append]
  rfl

theorem ColumnsOpen.concat {commands : List Issued} {c : Issued} (h : ColumnsOpen commands)
    (hc : c.cmd.type.isColumn = true → openRowOf commands c.rank c.cmd.bank = c.row) :
    ColumnsOpen (commands ++ [c]) := by
  intro before d after heq hd
  rcases eq_nil_or_concat after with rfl | ⟨after', e, rfl⟩
  · obtain ⟨rfl, hcd⟩ := append_inj' heq rfl
    rw [cons.injEq] at hcd
    rw [← hcd.1] at hd ⊢
    exact hc hd
  · rw [concat_eq_append, ← cons_append, ← append_assoc] at heq
    obtain ⟨heq, -⟩ := append_inj' heq rfl
    exact h before d after' heq hd

/-! ### Counting open banks -/

variable {p : DRAMCtrlParams} {rank rank' : Rank} {b : ℕ}

theorem openCount_open
    (hb : b < p.banks_per_rank) (hclosed : (rank.banks b).openRow = NO_ROW)
    (hopen : (rank'.banks b).openRow ≠ NO_ROW)
    (hother : ∀ i ≠ b, (rank'.banks i).openRow = (rank.banks i).openRow) :
    openCount p rank' = openCount p rank + 1 := by
  have hinsert : (Finset.range p.banks_per_rank).filter
        (fun i => (rank'.banks i).openRow ≠ NO_ROW) =
      insert b ((Finset.range p.banks_per_rank).filter
        (fun i => (rank.banks i).openRow ≠ NO_ROW)) := by
    ext i
    rw [Finset.mem_insert, Finset.mem_filter, Finset.mem_filter, Finset.mem_range]
    by_cases hi : i = b
    · subst hi
      simp [hb, hopen]
    · rw [hother i hi]
      simp [hi]
  rw [openCount, openCount, hinsert, Finset.card_insert_of_notMem]
  rw [Finset.mem_filter, not_and, not_not]
  exact fun _ => hclosed

/-- A bank that is closed leaves room for one more activate. -/
theorem openCount_lt (hb : b < p.banks_per_rank)
    (hclosed : (rank.banks b).openRow = NO_ROW) : openCount p rank < p.banks_per_rank := by
  have hsub : (Finset.range p.banks_per_rank).filter
      (fun i => (rank.banks i).openRow ≠ NO_ROW) ⊆ (Finset.range p.banks_per_rank).erase b := by
    intro i hi
    rw [Finset.mem_filter] at hi
    rw [Finset.mem_erase]
    exact ⟨by rintro rfl; exact hi.2 hclosed, hi.1⟩
  have hle := Finset.card_le_card hsub
  rw [Finset.card_erase_of_mem (Finset.mem_range.mpr hb), Finset.card_range] at hle
  unfold openCount
  omega

theorem openCount_pos (hb : b < p.banks_per_rank)
    (hopen : (rank.banks b).openRow ≠ NO_ROW) : openCount p rank ≠ 0 := by
  apply Finset.card_ne_zero_of_mem
  rw [Finset.mem_filter, Finset.mem_range]
  exact ⟨hb, hopen⟩

/-! ## A precharge -/

section

variable {ranks : ℕ → Rank} {nb r : ℕ} {commands : List Issued}

/-- What `prechargeBank` does to a rank. -/
structure Precharged (p : DRAMCtrlParams) (rank rank' : Rank) (b pre_at : ℕ) : Prop where
  banks : rank'.banks = update rank.banks b
    { rank.banks b with
      openRow := NO_ROW
      preAllowedAt := pre_at
      actAllowedAt := max (rank.banks b).actAllowedAt (pre_at + p.tRP) }
  numBanksActive : rank'.numBanksActive = rank.numBanksActive - 1
  cmdList : rank'.cmdList = rank.cmdList ++ [⟨.PRE, (rank.banks b).bank, pre_at⟩]
  actTicks : rank'.actTicks = rank.actTicks
  inLowPowerState : rank'.inLowPowerState = rank.inLowPowerState

theorem Rank.prechargeBank_spec {pre_at : ℕ} (hopen : (rank.banks b).openRow ≠ NO_ROW)
    (hactive : rank.numBanksActive ≠ 0) :
    Ok (fun rank' => Precharged p rank rank' b pre_at) ⊥ (rank.prechargeBank p b pre_at) := by
  unfold prechargeBank
  refine Ok.passes (by simpa using hopen) (Ok.passes (by simpa using hactive) ?_)
  exact ⟨rfl, rfl, rfl, rfl, rfl⟩

namespace Precharged

variable {pre_at : ℕ}

theorem bank_self (h : Precharged p rank rank' b pre_at) :
    rank'.banks b =
      { rank.banks b with
        openRow := NO_ROW
        preAllowedAt := pre_at
        actAllowedAt := max (rank.banks b).actAllowedAt (pre_at + p.tRP) } := by
  rw [h.banks, update_self]

theorem bank_of_ne (h : Precharged p rank rank' b pre_at) {i : ℕ} (hi : i ≠ b) :
    rank'.banks i = rank.banks i := by
  rw [h.banks, update_of_ne hi]

theorem advances (h : Precharged p rank rank' b pre_at)
    (hpre : (rank.banks b).preAllowedAt ≤ pre_at) (i : ℕ) :
    (rank.banks i).Advances (rank'.banks i) := by
  by_cases hi : i = b
  · subst hi
    rw [h.bank_self]
    refine ⟨le_refl _, le_refl _, hpre, le_max_left _ _, rfl, rfl, ?_⟩
    intro _ _
    exact (Nat.le_add_right _ _).trans (le_max_right _ _)
  · rw [h.bank_of_ne hi]
    exact Advances.refl _

end Precharged

variable {c : Issued} {k : Slot} {n pre_at act_tick row : ℕ}

/-- After a precharge the only rule is `tRP`. -/
theorem Needs.of_pre (hc : c.cmd.type = .PRE) (h : Needs p c k n) :
    n = p.tRP ∧ k.type = .ACT ∧ c.rank = k.rank ∧ c.cmd.bank = k.bank := by
  cases h with
  | tRP _ hk hr hb => exact ⟨rfl, hk, hr, hb⟩
  | _ ht => rw [hc] at ht; cases ht

theorem Timed.precharge (h : Timed p ranks nb commands)
    (heff : Precharged p (ranks r) rank' b pre_at)
    (hpre : ((ranks r).banks b).preAllowedAt ≤ pre_at) (row : ℕ) :
    Timed p (update ranks r rank') nb (commands ++ [⟨r, row, ⟨.PRE, b, pre_at⟩⟩]) := by
  refine h.issue ?_ (advances_update (heff.advances hpre)) (le_refl _) ?_
  · exact hpre
  intro k n hn
  obtain ⟨rfl, hk, hr, hb⟩ := hn.of_pre rfl
  obtain ⟨kr, kb, kt⟩ := k
  subst hk hr hb
  simp only [allowed, update_self, heff.bank_self]
  exact le_max_right _ _

/-- A command that opens or closes its bank and leaves the other banks alone. -/
theorem Tracked.issue (h : Tracked p ranks commands)
    (hcol : c.cmd.type.isColumn = false)
    (hself : (rank'.banks c.cmd.bank).openRow = openRowOf (commands ++ [c]) c.rank c.cmd.bank)
    (hother : ∀ i, i ≠ c.cmd.bank → (rank'.banks i).openRow = ((ranks c.rank).banks i).openRow)
    (hactive : rank'.numBanksActive = openCount p rank')
    (hpower : rank'.inLowPowerState = (ranks c.rank).inLowPowerState) :
    Tracked p (update ranks c.rank rank') (commands ++ [c]) where
  opened := by
    intro r i
    by_cases hr : r = c.rank
    · subst hr
      rw [update_self]
      by_cases hi : i = c.cmd.bank
      · rw [hi, hself]
      · rw [hother i hi, openRowOf_concat, if_neg (fun hc => hi hc.2.symm), h.opened]
    · rw [update_of_ne hr, openRowOf_concat, if_neg (fun hc => hr hc.1.symm), h.opened]
  columns := h.columns.concat (by simp [hcol])
  active := (forall_update_iff ranks (fun _ rank => rank.numBanksActive = openCount p rank)).mpr
    ⟨hactive, fun r _ => h.active r⟩
  awake := (forall_update_iff ranks (fun _ rank => rank.inLowPowerState = false)).mpr
    ⟨hpower.trans (h.awake _), fun r _ => h.awake r⟩

theorem Tracked.precharge (h : Tracked p ranks commands)
    (heff : Precharged p (ranks r) rank' b pre_at) (hb : b < p.banks_per_rank)
    (hopen : ((ranks r).banks b).openRow ≠ NO_ROW) (row : ℕ) :
    Tracked p (update ranks r rank') (commands ++ [⟨r, row, ⟨.PRE, b, pre_at⟩⟩]) := by
  have hself : (rank'.banks b).openRow = NO_ROW := by rw [heff.bank_self]
  have hother : ∀ i, i ≠ b → ((ranks r).banks i).openRow = (rank'.banks i).openRow :=
    fun i hi => by rw [heff.bank_of_ne hi]
  refine h.issue (c := ⟨r, row, ⟨.PRE, b, pre_at⟩⟩) rfl ?_ (fun i hi => (hother i hi).symm) ?_
    heff.inLowPowerState
  · rw [hself, openRowOf_concat, if_pos ⟨rfl, rfl⟩]
  · rw [heff.numBanksActive, h.active r, openCount_open hb hself hopen hother, Nat.add_sub_cancel]

/-- A step that is not an activate only has to leave the ticks alone. -/
theorem Windowed.of_advances {acts : List ℕ} (h : Windowed p rank acts)
    (hticks : rank'.actTicks = rank.actTicks)
    (hbanks : ∀ i, (rank.banks i).Advances (rank'.banks i)) : Windowed p rank' acts where
  ticks := hticks.trans h.ticks
  past i t ht := (h.past i t ht).trans (hbanks i).act
  window := by
    intro i back hback hne
    rw [hticks] at hback
    exact (h.window i back hback hne).trans (hbanks i).act
  sparse := h.sparse

/-- **A precharge** of an open bank, not before its time. -/
theorem OnTime.precharge (h : OnTime p ranks nb commands)
    (hb : b < p.banks_per_rank) (hopen : ((ranks r).banks b).openRow ≠ NO_ROW)
    (hpre : ((ranks r).banks b).preAllowedAt ≤ pre_at) (row : ℕ) :
    Ok (fun rank' => Precharged p (ranks r) rank' b pre_at ∧ OnTime p (update ranks r rank') nb
          (commands ++ [⟨r, row, ⟨.PRE, b, pre_at⟩⟩]))
      ⊥ ((ranks r).prechargeBank p b pre_at) := by
  have hactive : (ranks r).numBanksActive ≠ 0 := by
    rw [h.tracked.active r]
    exact openCount_pos hb hopen
  refine (prechargeBank_spec hopen hactive).imp ?_
  intro rank' heff
  refine ⟨heff, h.timed.precharge heff hpre row, h.tracked.precharge heff hb hopen row, ?_⟩
  intro r'
  rw [activates_concat, if_neg (by rintro ⟨-, hc⟩; cases hc)]
  by_cases hr : r' = r
  · subst hr
    rw [update_self]
    exact (h.windowed r').of_advances heff.actTicks (heff.advances hpre)
  · rw [update_of_ne hr]
    exact h.windowed r'

/-! ## An activate -/

/-- The delay that `enforceRRD` puts between an activate of bank `b` and one of bank `i`. -/
def rrd (p : DRAMCtrlParams) (rank : Rank) (b i : ℕ) : ℕ :=
  if p.bankGroupArch && (rank.banks b).bankgr == (rank.banks i).bankgr then p.tRRD_L else p.tRRD

/-- What the window part of `activateBank` does to a rank. -/
structure Recorded (p : DRAMCtrlParams) (rank rank' : Rank) (act_tick : ℕ) : Prop where
  rest : rank' = { rank with actTicks := rank'.actTicks, banks := rank'.banks }
  ticks : rank'.actTicks =
    if rank.actTicks = [] then [] else act_tick :: rank.actTicks.dropLast
  banks : ∀ i, ∃ t, rank'.banks i = { rank.banks i with actAllowedAt := t }
    ∧ (rank.banks i).actAllowedAt ≤ t
    ∧ ∀ back, rank'.actTicks.getLast? = some back → back ≠ 0 → back ≤ act_tick →
        act_tick < back + p.tXAW → back + p.tXAW ≤ t

/-- The window part stops only if the oldest activate of the window is too close. -/
theorem Rank.recordActivation_spec
    (hsafe : ∀ back, rank.actTicks.getLast? = some back → back ≠ 0 → back + p.tXAW ≤ act_tick) :
    Ok (fun rank' => Recorded p rank rank' act_tick) ⊥ (rank.recordActivation p act_tick) := by
  rw [recordActivation]
  cases hlast : rank.actTicks.getLast? with
  | none =>
    have hnil : rank.actTicks = [] := getLast?_eq_none_iff.mp hlast
    refine ⟨rfl, by rw [if_pos hnil, hnil], ?_⟩
    intro i
    refine ⟨_, rfl, le_refl _, ?_⟩
    intro back hback
    rw [hlast] at hback
    cases hback
  | some back =>
    have hcons : rank.actTicks ≠ [] := by
      intro hnil
      rw [hnil] at hlast
      cases hlast
    apply Ok.require_bind
    · intro hfail
      simp only [tooSoon, Bool.not_eq_false', Bool.and_eq_true, bne_iff_ne,
        decide_eq_true_eq] at hfail
      have := hsafe back hlast hfail.1.1
      omega
    intro _
    by_cases hsoon : tooSoon p
        ((act_tick :: rank.actTicks.dropLast).getLast?.getD 0) act_tick = true
    · rw [if_pos hsoon]
      refine ⟨rfl, by rw [if_neg hcons], ?_⟩
      intro i
      refine ⟨_, rfl, le_max_right _ _, ?_⟩
      intro back' hback' _ _ _
      rw [hback', Option.getD_some]
      exact le_max_left _ _
    · rw [if_neg hsoon]
      refine ⟨rfl, by rw [if_neg hcons], ?_⟩
      intro i
      refine ⟨_, rfl, le_refl _, ?_⟩
      intro back' hback' hne hle hlt
      rw [hback', Option.getD_some] at hsoon
      simp only [tooSoon, Bool.and_eq_true, bne_iff_ne, decide_eq_true_eq] at hsoon
      exact absurd ⟨⟨hne, hle⟩, by omega⟩ hsoon

/-- What `activateBank` does to a rank. -/
structure Activated (p : DRAMCtrlParams) (rank rank' : Rank) (b act_tick row : ℕ) : Prop where
  banks : ∀ i, ∃ t, rank'.banks i =
      { update rank.banks b (activated p (rank.banks b) act_tick row) i with
        actAllowedAt := t }
    ∧ (rank.banks i).actAllowedAt ≤ t ∧ act_tick + rrd p rank b i ≤ t
    ∧ ∀ back, rank'.actTicks.getLast? = some back → back ≠ 0 → back ≤ act_tick →
        act_tick < back + p.tXAW → back + p.tXAW ≤ t
  numBanksActive : rank'.numBanksActive = rank.numBanksActive + 1
  cmdList : rank'.cmdList = rank.cmdList ++ [⟨.ACT, (rank.banks b).bank, act_tick⟩]
  actTicks : rank'.actTicks =
    if rank.actTicks = [] then [] else act_tick :: rank.actTicks.dropLast
  inLowPowerState : rank'.inLowPowerState = rank.inLowPowerState

theorem Rank.enforceRRD_eq (banks : ℕ → Bank) (b act_tick i : ℕ) :
    ∃ t, enforceRRD p banks b act_tick i = { banks i with actAllowedAt := t }
      ∧ (banks i).actAllowedAt ≤ t
      ∧ act_tick + (if p.bankGroupArch && (banks b).bankgr == (banks i).bankgr then p.tRRD_L
          else p.tRRD) ≤ t := by
  unfold enforceRRD
  split_ifs <;> exact ⟨_, rfl, le_max_right _ _, le_max_left _ _⟩

theorem Rank.activateBank_spec (hlen : rank.actTicks.length = p.activation_limit)
    (hclosed : (rank.banks b).openRow = NO_ROW)
    (hactive : rank.numBanksActive < p.banks_per_rank)
    (hsafe : ∀ back, rank.actTicks.getLast? = some back → back ≠ 0 → back + p.tXAW ≤ act_tick) :
    Ok (fun rank' => Activated p rank rank' b act_tick row) ⊥
      (rank.activateBank p b act_tick row) := by
  unfold activateBank
  refine Ok.passes (by simpa using hlen) (Ok.passes (by simpa using hclosed) ?_)
  refine Ok.passes (by simpa using hactive) ((recordActivation_spec ?_).bind ?_)
  · exact hsafe
  intro rank' hrec
  have hrest := hrec.rest
  refine ⟨?_, by rw [hrest], by rw [hrest], hrec.ticks, by rw [hrest]⟩
  intro i
  -- first the loop for `tRRD`, then the one for `tXAW`
  obtain ⟨t, hbank, hle, hwindow⟩ := hrec.banks i
  obtain ⟨u, hrrd, hle', hu⟩ := enforceRRD_eq
    (update rank.banks b (activated p (rank.banks b) act_tick row)) b act_tick i
  simp only at hbank hle
  rw [hrrd] at hbank hle
  have hsame : (update rank.banks b (activated p (rank.banks b) act_tick row) i).actAllowedAt
        = (rank.banks i).actAllowedAt
      ∧ (update rank.banks b (activated p (rank.banks b) act_tick row) i).bankgr
        = (rank.banks i).bankgr := by
    rw [update_apply]
    split_ifs with hi
    · subst hi
      exact ⟨rfl, rfl⟩
    · exact ⟨rfl, rfl⟩
  rw [hsame.1] at hle'
  rw [hsame.2, update_self] at hu
  exact ⟨t, hbank, hle'.trans hle, hu.trans hle, hwindow⟩

namespace Activated

variable {act_tick row : ℕ}

theorem bank_self (h : Activated p rank rank' b act_tick row) :
    ∃ t, rank'.banks b =
        { activated p (rank.banks b) act_tick row with actAllowedAt := t }
      ∧ (rank.banks b).actAllowedAt ≤ t := by
  obtain ⟨t, hbank, hle, -⟩ := h.banks b
  rw [update_self] at hbank
  exact ⟨t, hbank, hle⟩

theorem bank_of_ne (h : Activated p rank rank' b act_tick row) {i : ℕ} (hi : i ≠ b) :
    ∃ t, rank'.banks i = { rank.banks i with actAllowedAt := t }
      ∧ (rank.banks i).actAllowedAt ≤ t := by
  obtain ⟨t, hbank, hle, -⟩ := h.banks i
  rw [update_of_ne hi] at hbank
  exact ⟨t, hbank, hle⟩

theorem openRow_self (h : Activated p rank rank' b act_tick row) :
    (rank'.banks b).openRow = row := by
  obtain ⟨t, hbank, -⟩ := h.bank_self
  rw [hbank]
  rfl

theorem openRow_of_ne (h : Activated p rank rank' b act_tick row) {i : ℕ} (hi : i ≠ b) :
    (rank'.banks i).openRow = (rank.banks i).openRow := by
  obtain ⟨t, hbank, -⟩ := h.bank_of_ne hi
  rw [hbank]

theorem actAllowedAt (h : Activated p rank rank' b act_tick row) (i : ℕ) :
    act_tick + rrd p rank b i ≤ (rank'.banks i).actAllowedAt := by
  obtain ⟨t, hbank, -, hrrd, -⟩ := h.banks i
  rw [hbank]
  exact hrrd

/-- An activate of a bank that is closed overwrites `preAllowedAt` with a later time. -/
theorem advances (h : Activated p rank rank' b act_tick row)
    (hclosed : (rank.banks b).preAllowedAt ≤ (rank.banks b).actAllowedAt)
    (hact : (rank.banks b).actAllowedAt ≤ act_tick) (hrow : row ≠ NO_ROW) (i : ℕ) :
    (rank.banks i).Advances (rank'.banks i) := by
  by_cases hi : i = b
  · subst hi
    obtain ⟨t, hbank, hle⟩ := h.bank_self
    rw [hbank]
    refine ⟨le_max_right _ _, le_max_right _ _, ?_, hle, rfl, rfl, ?_⟩
    · exact (hclosed.trans hact).trans (Nat.le_add_right _ _)
    · intro hopen
      exact absurd hopen hrow
  · obtain ⟨t, hbank, hle⟩ := h.bank_of_ne hi
    rw [hbank]
    refine ⟨le_refl _, le_refl _, le_refl _, hle, rfl, rfl, ?_⟩
    intro hopen hold
    exact (hold hopen).trans hle

end Activated

theorem Needs.of_act (hc : c.cmd.type = .ACT) (h : Needs p c k n) :
    c.rank = k.rank ∧ ((k.type = .ACT ∧ n = p.tRRD)
        ∨ (k.type = .ACT ∧ p.bankGroupArch = true ∧ p.bankgr c.cmd.bank = p.bankgr k.bank
            ∧ n = p.tRRD_L)
        ∨ (k.type = .PRE ∧ c.cmd.bank = k.bank ∧ n = p.tRAS)
        ∨ (k.type.isColumn = true ∧ c.cmd.bank = k.bank ∧ n = p.tRCD)) := by
  cases h with
  | tRRD _ hk hr => exact ⟨hr, .inl ⟨hk, rfl⟩⟩
  | tRRD_L _ hk hr harch hg => exact ⟨hr, .inr (.inl ⟨hk, harch, hg, rfl⟩)⟩
  | tRAS _ hk hr hb => exact ⟨hr, .inr (.inr (.inl ⟨hk, hb, rfl⟩))⟩
  | tRCD _ hk hr hb => exact ⟨hr, .inr (.inr (.inr ⟨hk, hb, rfl⟩))⟩
  | _ ht => rw [hc] at ht; cases ht

theorem le_allowed_column {t : ℕ} (hk : k.type.isColumn = true)
    (hrd : k.type = .RD → t ≤ max ((ranks k.rank).banks k.bank).rdAllowedAt nb)
    (hwr : k.type = .WR → t ≤ max ((ranks k.rank).banks k.bank).wrAllowedAt nb) :
    t ≤ allowed ranks nb k := by
  obtain ⟨kr, kb, kt⟩ := k
  cases kt with
  | RD => exact hrd rfl
  | WR => exact hwr rfl
  | ACT | PRE | PUP_ACT | PUP_PRE | SREX | PDN_F_ACT | PDN_F_PRE => cases hk

theorem Timed.activate (h : Timed p ranks nb commands)
    (hrrdL : p.bankGroupArch = true → p.tRRD ≤ p.tRRD_L)
    (heff : Activated p (ranks r) rank' b act_tick row)
    (hclosed : ((ranks r).banks b).openRow = NO_ROW)
    (hact : ((ranks r).banks b).actAllowedAt ≤ act_tick) (hrow : row ≠ NO_ROW) :
    Timed p (update ranks r rank') nb (commands ++ [⟨r, row, ⟨.ACT, b, act_tick⟩⟩]) := by
  refine h.issue ?_
    (advances_update (heff.advances (h.closed r b hclosed) hact hrow)) (le_refl _) ?_
  · exact hact
  intro k n hn
  obtain ⟨hr, hcases⟩ := hn.of_act rfl
  -- the delay between two activates of the rank, in the terms of the rules
  have hrrd : rrd p (ranks r) b k.bank =
      if p.bankGroupArch && p.bankgr b == p.bankgr k.bank then p.tRRD_L else p.tRRD := by
    rw [rrd, h.bankgr_eq, h.bankgr_eq]
  have hnext := heff.actAllowedAt k.bank
  rw [hrrd] at hnext
  rcases hcases with ⟨hk, rfl⟩ | ⟨hk, harch, hgr, rfl⟩ | ⟨hk, hb, rfl⟩ | ⟨hk, hb, rfl⟩
  · have hle : p.tRRD ≤
        if p.bankGroupArch && p.bankgr b == p.bankgr k.bank then p.tRRD_L else p.tRRD := by
      split_ifs with hgroup
      · exact hrrdL (Bool.and_eq_true_iff.mp hgroup).1
      · exact le_refl _
    rw [allowed, ← hr, hk, update_self]
    exact (Nat.add_le_add_left hle _).trans hnext
  · rw [if_pos (by rw [harch, hgr]; simp)] at hnext
    rw [allowed, ← hr, hk, update_self]
    exact hnext
  · obtain ⟨t, hbank, -⟩ := heff.bank_self
    rw [allowed, ← hr, hk, update_self, ← hb, hbank]
    exact le_refl _
  · obtain ⟨t, hbank, -⟩ := heff.bank_self
    have hcol : ∀ old, act_tick + p.tRCD ≤ max (max (act_tick + p.tRCD) old) nb :=
      fun old => (le_max_left _ _).trans (le_max_left _ _)
    refine le_allowed_column hk ?_ ?_ <;>
    · intro _
      rw [← hr, ← hb, update_self, hbank]
      exact hcol _

theorem Tracked.activate (h : Tracked p ranks commands)
    (heff : Activated p (ranks r) rank' b act_tick row) (hb : b < p.banks_per_rank)
    (hclosed : ((ranks r).banks b).openRow = NO_ROW) (hrow : row ≠ NO_ROW) :
    Tracked p (update ranks r rank') (commands ++ [⟨r, row, ⟨.ACT, b, act_tick⟩⟩]) := by
  have hself := heff.openRow_self
  refine h.issue (c := ⟨r, row, ⟨.ACT, b, act_tick⟩⟩) rfl ?_ (fun i => heff.openRow_of_ne) ?_
    heff.inLowPowerState
  · rw [hself, openRowOf_concat, if_pos ⟨rfl, rfl⟩]
  · rw [heff.numBanksActive, h.active r]
    exact (openCount_open hb hclosed (hself ▸ hrow) (fun i => heff.openRow_of_ne)).symm

theorem Windowed.activate {acts : List ℕ} (h : Windowed p rank acts)
    (heff : Activated p rank rank' b act_tick row)
    (hact : (rank.banks b).actAllowedAt ≤ act_tick) : Windowed p rank' (acts ++ [act_tick]) where
  ticks := by
    rw [heff.actTicks, h.ticks]
    by_cases hlimit : 0 < p.activation_limit
    · rw [recent_concat hlimit, if_neg]
      intro hnil
      have hlen := length_recent p.activation_limit acts
      rw [hnil, length_nil] at hlen
      omega
    · have hzero : p.activation_limit = 0 := by omega
      rw [hzero]
      rfl
  past := by
    intro i t ht
    rcases mem_append.mp ht with ht | ht
    · obtain ⟨u, hbank, hle, -⟩ := heff.banks i
      rw [hbank]
      exact (h.past i t ht).trans hle
    · rw [mem_singleton] at ht
      subst ht
      exact (Nat.le_add_right _ _).trans (heff.actAllowedAt i)
  window := by
    intro i back hback hne
    -- the oldest tick of the new window is this activate or an earlier one
    have hle : back ≤ act_tick := by
      have hmem := mem_of_getLast? hback
      rw [heff.actTicks] at hmem
      split_ifs at hmem
      · cases hmem
      · rw [mem_cons] at hmem
        rcases hmem with rfl | hmem
        · exact le_refl _
        · have hold := mem_of_mem_dropLast hmem
          rw [h.ticks, recent] at hold
          rcases mem_append.mp (mem_of_mem_take hold) with hold | hold
          · exact (h.past b back (mem_reverse.mp hold)).trans hact
          · exact absurd (eq_of_mem_replicate hold) hne
    obtain ⟨u, hbank, -, hrrd, hwindow⟩ := heff.banks i
    rw [hbank]
    by_cases hlt : act_tick < back + p.tXAW
    · exact hwindow back hback hne hle hlt
    · show back + p.tXAW ≤ u
      omega
  sparse := by
    intro hlimit hne
    have hold := h.sparse hlimit (fun t ht => hne t (mem_append_left _ ht))
    refine hold.concat hlimit ?_
    intro a ha hmem
    rw [← h.ticks] at ha
    exact (h.window b a ha (hne a (mem_append_left _ hmem))).trans hact

/-- **An activate** of a closed bank, not before its time. It never stops with the panic about
the activation window. -/
theorem OnTime.activate (h : OnTime p ranks nb commands) (act_tick row : ℕ)
    (hrrdL : p.bankGroupArch = true → p.tRRD ≤ p.tRRD_L) (hb : b < p.banks_per_rank)
    (hclosed : ((ranks r).banks b).openRow = NO_ROW)
    (hact : ((ranks r).banks b).actAllowedAt ≤ act_tick) (hrow : row ≠ NO_ROW) :
    Ok (fun rank' => Activated p (ranks r) rank' b act_tick row ∧ OnTime p (update ranks r rank') nb
          (commands ++ [⟨r, row, ⟨.ACT, b, act_tick⟩⟩]))
      ⊥ ((ranks r).activateBank p b act_tick row) := by
  have hlen : (ranks r).actTicks.length = p.activation_limit := by
    rw [(h.windowed r).ticks, length_recent]
  have hactive : (ranks r).numBanksActive < p.banks_per_rank := by
    rw [h.tracked.active r]
    exact openCount_lt hb hclosed
  have hsafe : ∀ back, (ranks r).actTicks.getLast? = some back → back ≠ 0 →
      back + p.tXAW ≤ act_tick := by
    intro back hback hne
    exact ((h.windowed r).window b back hback hne).trans hact
  refine (activateBank_spec hlen hclosed hactive hsafe).imp ?_
  intro rank' heff
  refine ⟨heff, h.timed.activate hrrdL heff hclosed hact hrow,
    h.tracked.activate heff hb hclosed hrow, ?_⟩
  intro r'
  rw [activates_concat]
  by_cases hr : r' = r
  · subst hr
    rw [if_pos ⟨rfl, rfl⟩, update_self]
    exact (h.windowed r').activate heff hact
  · rw [if_neg (by rintro ⟨heq, -⟩; exact hr heq.symm), update_of_ne hr]
    exact h.windowed r'

/-! ## A column command -/

/-- The command of an access. -/
def columnType (isRead : Bool) : MemCommand := if isRead then .RD else .WR

/-- The ranks after the column command of an access at `cmd_at`. -/
def afterColumn (p : DRAMCtrlParams) (ranks : ℕ → Rank) (pkt : DRAMPacket) (cmd_at : ℕ) :
    ℕ → Rank :=
  let delayed := DRAMCtrl.delayBanks p ranks pkt cmd_at
  update delayed pkt.rank
    (DRAMCtrl.columnIssued p (delayed pkt.rank) pkt cmd_at (cmd_at + p.tCL + p.tBURST))

/-- Are bank `b` of `ranks r` and bank `i` of `ranks r'` in one group, as `delayBanks` asks? -/
def sameGroup (p : DRAMCtrlParams) (ranks : ℕ → Rank) (r b r' i : ℕ) : Bool :=
  p.bankGroupArch && ((ranks r).banks b).bankgr == ((ranks r').banks i).bankgr

section Column

variable {pkt : DRAMPacket} {cmd_at : ℕ}

theorem afterColumn_self : afterColumn p ranks pkt cmd_at pkt.rank =
    DRAMCtrl.columnIssued p (DRAMCtrl.delayBanks p ranks pkt cmd_at pkt.rank) pkt cmd_at
      (cmd_at + p.tCL + p.tBURST) := by
  rw [afterColumn, update_self]

theorem afterColumn_bank (r b : ℕ) : (afterColumn p ranks pkt cmd_at r).banks b =
    let bank := (DRAMCtrl.delayBanks p ranks pkt cmd_at r).banks b
    if r = pkt.rank ∧ b = pkt.bank then
      DRAMCtrl.accessed p bank pkt.read cmd_at (cmd_at + p.tCL + p.tBURST)
    else bank := by
  dsimp only
  split_ifs with h
  · rw [h.1, h.2, afterColumn_self]
    exact update_self _ _ _
  · by_cases hr : r = pkt.rank
    · rw [hr, afterColumn_self]
      exact update_of_ne (fun hb => h ⟨hr, hb⟩) _ _
    · rw [afterColumn, update_of_ne hr]

theorem afterColumn_rd (r b : ℕ) : ((afterColumn p ranks pkt cmd_at r).banks b).rdAllowedAt =
    max (cmd_at + DRAMCtrl.dlyToRdCmd p pkt.read (pkt.rank == r)
      (sameGroup p ranks pkt.rank pkt.bank r b)) ((ranks r).banks b).rdAllowedAt := by
  rw [afterColumn_bank]
  dsimp only
  split_ifs <;> rfl

theorem afterColumn_wr (r b : ℕ) : ((afterColumn p ranks pkt cmd_at r).banks b).wrAllowedAt =
    max (cmd_at + DRAMCtrl.dlyToWrCmd p pkt.read (pkt.rank == r)
      (sameGroup p ranks pkt.rank pkt.bank r b)) ((ranks r).banks b).wrAllowedAt := by
  rw [afterColumn_bank]
  dsimp only
  split_ifs <;> rfl

theorem afterColumn_pre_self :
    ((afterColumn p ranks pkt cmd_at pkt.rank).banks pkt.bank).preAllowedAt =
      max ((ranks pkt.rank).banks pkt.bank).preAllowedAt
        (if pkt.read then cmd_at + p.tRTP else cmd_at + p.tCL + p.tBURST + p.tWR) := by
  rw [afterColumn_bank, if_pos ⟨rfl, rfl⟩]
  rfl

theorem afterColumn_openRow (r b : ℕ) : ((afterColumn p ranks pkt cmd_at r).banks b).openRow =
    ((ranks r).banks b).openRow := by
  rw [afterColumn_bank]
  dsimp only
  split_ifs <;> rfl

theorem afterColumn_rank (r : ℕ) :
    (afterColumn p ranks pkt cmd_at r).numBanksActive = (ranks r).numBanksActive
      ∧ (afterColumn p ranks pkt cmd_at r).actTicks = (ranks r).actTicks
      ∧ (afterColumn p ranks pkt cmd_at r).inLowPowerState = (ranks r).inLowPowerState := by
  by_cases hr : r = pkt.rank
  · subst hr
    rw [afterColumn_self]
    exact ⟨rfl, rfl, rfl⟩
  · rw [afterColumn, update_of_ne hr]
    exact ⟨rfl, rfl, rfl⟩

/-- The bank of the access is open, so its `preAllowedAt` may rise above `actAllowedAt`. -/
theorem afterColumn_advances (hopen : ((ranks pkt.rank).banks pkt.bank).openRow ≠ NO_ROW)
    (r b : ℕ) : ((ranks r).banks b).Advances ((afterColumn p ranks pkt cmd_at r).banks b) := by
  rw [afterColumn_bank]
  dsimp only
  split_ifs with h
  · refine ⟨le_max_right _ _, le_max_right _ _, le_max_left _ _, le_refl _, rfl, rfl, ?_⟩
    intro hclosed
    rw [← h.1, ← h.2] at hopen
    exact absurd hclosed hopen
  · refine ⟨le_max_right _ _, le_max_right _ _, le_refl _, le_refl _, rfl, rfl, ?_⟩
    intro hclosed hold
    exact hold hclosed

theorem Needs.of_column {isRead : Bool}
    (hc : c.cmd.type = columnType isRead) (h : Needs p c k n) :
    (k.type = .PRE ∧ c.rank = k.rank ∧ c.cmd.bank = k.bank
        ∧ n = if isRead then p.tRTP else p.tCL + p.tBURST + p.tWR)
      ∨ (k.type.isColumn = true ∧ n = p.tBURST)
      ∨ (k.type.isColumn = true ∧ (isRead = false → k.type ≠ .WR) ∧ c.rank = k.rank
        ∧ p.bankGroupArch = true ∧ p.bankgr c.cmd.bank = p.bankgr k.bank ∧ n = p.tCCD_L)
      ∨ (k.type = .WR ∧ isRead = false ∧ c.rank = k.rank
        ∧ p.bankGroupArch = true ∧ p.bankgr c.cmd.bank = p.bankgr k.bank ∧ n = p.tCCD_L_WR)
      ∨ (k.type.isColumn = true ∧ c.rank ≠ k.rank ∧ n = p.tCS + p.tBURST) := by
  have hne : c.cmd.type ≠ .ACT ∧ c.cmd.type ≠ .PRE := by
    rw [hc]
    cases isRead <;> exact ⟨by simp [columnType], by simp [columnType]⟩
  cases h with
  | tRRD ht | tRRD_L ht | tRAS ht | tRCD ht => exact absurd ht hne.1
  | tRP ht => exact absurd ht hne.2
  | tRTP ht hk hr hb =>
    cases isRead with
    | true => exact .inl ⟨hk, hr, hb, rfl⟩
    | false => cases hc.symm.trans ht
  | tWR ht hk hr hb =>
    cases isRead with
    | true => cases hc.symm.trans ht
    | false => exact .inl ⟨hk, hr, hb, rfl⟩
  | tBURST _ hk => exact .inr (.inl ⟨hk, rfl⟩)
  | tCCD_L _ hk hnot hr harch hgr =>
    refine .inr (.inr (.inl ⟨hk, ?_, hr, harch, hgr, rfl⟩))
    rintro rfl hwr
    exact hnot ⟨hc, hwr⟩
  | tCCD_L_WR ht hk hr harch hgr =>
    cases isRead with
    | true => cases hc.symm.trans ht
    | false => exact .inr (.inr (.inr (.inl ⟨hk, rfl, hr, harch, hgr, rfl⟩)))
  | tCS _ hk hr => exact .inr (.inr (.inr (.inr ⟨hk, hr, rfl⟩)))

theorem Timed.column (h : Timed p ranks nb commands)
    (hopen : ((ranks pkt.rank).banks pkt.bank).openRow ≠ NO_ROW)
    (hcol : allowed ranks nb ⟨pkt.rank, pkt.bank, columnType pkt.read⟩ ≤ cmd_at)
    (hnb : nb ≤ cmd_at) (row : ℕ) :
    Timed p (afterColumn p ranks pkt cmd_at) (cmd_at + p.tBURST)
      (commands ++ [⟨pkt.rank, row, ⟨columnType pkt.read, pkt.bank, cmd_at⟩⟩]) := by
  refine h.issue hcol (afterColumn_advances hopen) (hnb.trans (Nat.le_add_right _ _)) ?_
  intro k n hn
  obtain ⟨kr, kb, kt⟩ := k
  -- the two banks are in one group for the loop if they are in one for the rules
  have hgroup : p.bankGroupArch = true → p.bankgr pkt.bank = p.bankgr kb →
      sameGroup p ranks pkt.rank pkt.bank kr kb = true := by
    intro harch hgr
    rw [sameGroup, h.bankgr_eq, h.bankgr_eq, harch, hgr]
    simp
  rcases hn.of_column rfl with ⟨hk, hr, hb, rfl⟩ | ⟨hk, rfl⟩ | ⟨hk, hkind, hr, harch, hgr, rfl⟩
    | ⟨hk, hkind, hr, harch, hgr, rfl⟩ | ⟨hk, hr, rfl⟩
  · simp only at hk hr hb
    subst hk hr hb
    rw [allowed]
    rw [afterColumn_pre_self]
    refine le_trans (le_of_eq ?_) (le_max_right _ _)
    cases pkt.read with
    | true => rfl
    | false =>
      show cmd_at + (p.tCL + p.tBURST + p.tWR) = cmd_at + p.tCL + p.tBURST + p.tWR
      omega
  · exact le_allowed_column hk (fun _ => le_max_right _ _) (fun _ => le_max_right _ _)
  · simp only at hkind hr hgr
    subst hr
    refine le_allowed_column hk ?_ ?_
    · intro _
      rw [afterColumn_rd, beq_self_eq_true, hgroup harch hgr]
      refine le_trans ?_ ((le_max_left _ _).trans (le_max_left _ _))
      cases pkt.read with
      | true => exact le_refl _
      | false => exact Nat.add_le_add_left (le_max_left _ _) _
    · intro hwr
      rw [afterColumn_wr, beq_self_eq_true, hgroup harch hgr]
      refine le_trans ?_ ((le_max_left _ _).trans (le_max_left _ _))
      cases hread : pkt.read with
      | true => exact Nat.add_le_add_left (le_max_left _ _) _
      | false => exact absurd hwr (hkind hread)
  · simp only at hk hkind hr hgr
    subst hk hr
    refine le_allowed_column rfl (fun hrd => by cases hrd) ?_
    intro _
    rw [afterColumn_wr, beq_self_eq_true, hgroup harch hgr, hkind]
    exact (le_max_left _ _).trans (le_max_left _ _)
  · simp only at hr
    have hother : (pkt.rank == kr) = false := by simpa using hr
    refine le_allowed_column hk ?_ ?_
    · intro _
      rw [afterColumn_rd, hother]
      exact (le_max_left _ _).trans (le_max_left _ _)
    · intro _
      rw [afterColumn_wr, hother]
      exact (le_max_left _ _).trans (le_max_left _ _)

/-- **A column command** for the open row. -/
theorem OnTime.column (h : OnTime p ranks nb commands)
    (hrow : ((ranks pkt.rank).banks pkt.bank).openRow = pkt.row) (hne : pkt.row ≠ NO_ROW)
    (hcol : allowed ranks nb ⟨pkt.rank, pkt.bank, columnType pkt.read⟩ ≤ cmd_at)
    (hnb : nb ≤ cmd_at) :
    OnTime p (afterColumn p ranks pkt cmd_at) (cmd_at + p.tBURST)
      (commands ++ [⟨pkt.rank, pkt.row, ⟨columnType pkt.read, pkt.bank, cmd_at⟩⟩]) := by
  have hopen : ((ranks pkt.rank).banks pkt.bank).openRow ≠ NO_ROW := by
    rw [hrow]
    exact hne
  have htype : columnType pkt.read ≠ .ACT ∧ columnType pkt.read ≠ .PRE := by
    cases pkt.read <;> exact ⟨by simp [columnType], by simp [columnType]⟩
  refine ⟨h.timed.column hopen hcol hnb pkt.row, ⟨?_, ?_, ?_, ?_⟩, ?_⟩
  · intro r b
    rw [afterColumn_openRow, h.tracked.opened, openRowOf_concat]
    -- a column command opens and closes nothing
    by_cases hrb : pkt.rank = r ∧ pkt.bank = b
    · rw [if_pos hrb]
      cases pkt.read <;> rfl
    · rw [if_neg hrb]
  · refine h.tracked.columns.concat ?_
    intro _
    rw [← h.tracked.opened]
    exact hrow
  · intro r
    rw [(afterColumn_rank r).1, h.tracked.active r, openCount, openCount]
    simp only [afterColumn_openRow]
  · intro r
    rw [(afterColumn_rank r).2.2]
    exact h.tracked.awake r
  · intro r
    rw [activates_concat, if_neg (fun hc => htype.1 hc.2)]
    exact (h.windowed r).of_advances (afterColumn_rank r).2.1 (fun i =>
      afterColumn_advances hopen r i)

end Column

end

end Bindu.Mem
