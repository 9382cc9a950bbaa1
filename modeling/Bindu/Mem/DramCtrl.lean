/-
The DRAM controller of the classic memory system, `mem/dram_ctrl.{hh,cc}`: its parameters and
the checks of its constructor, its state, and the access path.

The state is that of `DRAMCtrl` with its base class `QoS::MemCtrl`. A rank has its banks by
index, the channel has its ranks by index; the entries that count are those below
`banksPerRank` and `ranksPerChannel`, and a loop over a vector is a function of every entry. A
`DRAMPacket` does not point to its rank and bank but has their indices, which the constructor
of the packet was given as well. Times are natural numbers. Left out are the statistics, the
power model behind `cmdList` and the events of the refresh and power state machines, of which
the state has only the times for which they are scheduled.

`doDRAMAccess` is the function that places the commands of one access in time: it may have to
close the open row of the bank and to open another one, it issues the read or write, and it may
close the row behind it.
-/
import Bindu.Mem.Packet

namespace Bindu.Mem

open Bindu.Lib

/-- The `fatal` checks of the constructor, and the assertions and panics of the access path, of
the queues and of the QoS base class. -/
inductive DRAMFault where
  | rank_count | burst_size | write_thresholds | tREFI | bank_groups | banks_in_group
  | tCCD_L | tCCD_L_WR | tRRD_L
  | act_ticks | row_open | no_row_open | too_many_active | none_active | activate_window
  | self_refresh | event_scheduled | not_scheduled
  | cache_responding | not_read_or_write | zero_size | not_a_read | not_a_write | no_bursts
  | read_queue_full | write_queue_full | write_queue_set | decode
  | priority | no_master | negative_packets | unmatched_response | escalate_loop
  | rank_refreshing | packet_size | ready_time | no_outstanding | low_power | no_response
  | no_helper | power_event | division_by_zero | interleaving
  deriving DecidableEq, Repr

/-- `Enums::PageManage`. -/
inductive PageManage where
  | «open» | open_adaptive | close | close_adaptive
  deriving DecidableEq, Repr

/-- `Enums::MemSched`. -/
inductive MemSched where
  | fcfs | frfcfs
  deriving DecidableEq, Repr

/-- `Enums::AddrMap`. -/
inductive AddrMap where
  | RoRaBaChCo | RoRaBaCoCh | RoCoRaBaCh
  deriving DecidableEq, Repr

/-! ## Parameters -/

/-- `DRAMCtrlParams`, with the defaults of `DRAMCtrl.py`. The address range behind
`AbstractMemory` is given by its size and its interleaving. -/
structure DRAMCtrlParams where
  range_size : ℕ
  range_interleaved : Bool := false
  range_granularity : ℕ := 0
  device_bus_width : ℕ
  burst_length : ℕ
  device_rowbuffer_size : ℕ
  devices_per_rank : ℕ
  ranks_per_channel : ℕ
  bank_groups_per_rank : ℕ := 0
  banks_per_rank : ℕ
  channels : ℕ := 1
  read_buffer_size : ℕ := 32
  write_buffer_size : ℕ := 64
  write_high_thresh_perc : ℕ := 85
  write_low_thresh_perc : ℕ := 50
  min_writes_per_switch : ℕ := 16
  tRTW : ℕ
  tCS : ℕ
  tBURST : ℕ
  tCCD_L : ℕ := 0
  tCCD_L_WR : ℕ := tCCD_L
  tRCD : ℕ
  tCL : ℕ
  tRP : ℕ
  tRAS : ℕ
  tWR : ℕ
  tWTR : ℕ
  tRTP : ℕ
  tRFC : ℕ
  tREFI : ℕ
  tRRD : ℕ
  tRRD_L : ℕ := 0
  tXAW : ℕ
  tCK : ℕ
  tXP : ℕ := 0
  tXS : ℕ := 0
  activation_limit : ℕ
  mem_sched_policy : MemSched := .frfcfs
  addr_mapping : AddrMap := .RoRaBaCoCh
  page_policy : PageManage := .open_adaptive
  max_accesses_per_row : ℕ := 16
  static_frontend_latency : ℕ := 10000
  static_backend_latency : ℕ := 10000
  qos_priorities : ℕ := 1
  qos_syncro_scheduler : Bool := false
  qos_priority_escalation : Bool := false

/-- `isPowerOf2` of `base/intmath.hh`. -/
def isPowerOf2 (n : ℕ) : Bool := n != 0 && n &&& (n - 1) == 0

/-- `divCeil` of `base/intmath.hh`. -/
def divCeil (a b : ℕ) : ℕ := (a + b - 1) / b

namespace DRAMCtrlParams

variable (p : DRAMCtrlParams)

/-! The constants that the constructor computes from the parameters. Sizes are `uint32_t`. -/

def burstSize : ℕ := p.devices_per_rank * p.burst_length * p.device_bus_width % 2 ^ 32 / 8

def rowBufferSize : ℕ := p.devices_per_rank * p.device_rowbuffer_size % 2 ^ 32

def columnsPerRowBuffer : ℕ := p.rowBufferSize / p.burstSize

def columnsPerStripe : ℕ :=
  if p.range_interleaved then p.range_granularity / p.burstSize else 1

def bankGroupArch : Bool := decide (p.bank_groups_per_rank > 0)

def writeHighThreshold : ℕ := p.write_buffer_size * p.write_high_thresh_perc / 100

def writeLowThreshold : ℕ := p.write_buffer_size * p.write_low_thresh_perc / 100

def rankToRankDly : ℕ := p.tCS + p.tBURST

def wrToRdDly : ℕ := p.tCL + p.tBURST + p.tWTR

def rdToWrDly : ℕ := p.tRTW + p.tBURST

/-- The size of the address range, rounded up to a power of two. -/
def capacity : ℕ := 2 ^ Nat.clog 2 p.range_size

def rowsPerBank : ℕ :=
  p.capacity / (p.rowBufferSize * p.banks_per_rank * p.ranks_per_channel % 2 ^ 32) % 2 ^ 32

/-- The bank group that the constructor of `Rank` gives to bank `b`, a `uint8_t`. -/
def bankgr (b : ℕ) : ℕ :=
  if p.bank_groups_per_rank > 0 then b % p.bank_groups_per_rank % 2 ^ 8 else b % 2 ^ 8

/-- The checks in the body of the constructor, in its order. -/
def check : Except DRAMFault Unit := do
  require (isPowerOf2 p.ranks_per_channel) .rank_count
  require (isPowerOf2 p.burstSize) .burst_size
  require (!decide (p.write_low_thresh_perc ≥ p.write_high_thresh_perc)) .write_thresholds
  require (!(decide (p.tREFI ≤ p.tRP) || decide (p.tREFI ≤ p.tRFC))) .tREFI
  require (!(p.bankGroupArch && decide (p.bank_groups_per_rank > p.banks_per_rank))) .bank_groups
  require (!(p.bankGroupArch && p.banks_per_rank % p.bank_groups_per_rank != 0)) .banks_in_group
  require (!(p.bankGroupArch && decide (p.tCCD_L ≤ p.tBURST))) .tCCD_L
  require (!(p.bankGroupArch && decide (p.tCCD_L_WR ≤ p.tBURST))) .tCCD_L_WR
  require (!(p.bankGroupArch && decide (p.tRRD_L < p.tRRD))) .tRRD_L

end DRAMCtrlParams

/-! ## State -/

/-- The commands that `cmdList` is filled with on the access path. -/
inductive MemCommand where
  | ACT | PRE | RD | WR | PUP_ACT | PUP_PRE | SREX | PDN_F_ACT | PDN_F_PRE
  deriving DecidableEq, Repr

/-- `DRAMCtrl::Command`. -/
structure Command where
  type : MemCommand
  bank : ℕ
  timeStamp : ℕ
  deriving DecidableEq, Repr

/-- `DRAMCtrl::Bank`. -/
structure Bank where
  openRow : ℕ
  bank : ℕ
  bankgr : ℕ
  rdAllowedAt : ℕ := 0
  wrAllowedAt : ℕ := 0
  preAllowedAt : ℕ := 0
  actAllowedAt : ℕ := 0
  rowAccesses : ℕ := 0
  bytesAccessed : ℕ := 0
  deriving DecidableEq, Repr

/-- `Bank::NO_ROW`, `-1` as a `uint32_t`. -/
def Bank.NO_ROW : ℕ := 2 ^ 32 - 1

/-- `DRAMCtrl::PowerState`. -/
inductive PowerState where
  | PWR_IDLE | PWR_REF | PWR_SREF | PWR_PRE_PDN | PWR_ACT | PWR_ACT_PDN
  deriving DecidableEq, Repr

/-- `DRAMCtrl::RefreshState`. -/
inductive RefreshState where
  | REF_IDLE | REF_DRAIN | REF_PD_EXIT | REF_SREF_EXIT | REF_PRE | REF_START | REF_RUN
  deriving DecidableEq, Repr

/-- `DRAMCtrl::Rank`. An event is the time for which it is scheduled. -/
structure Rank where
  pwrStateTrans : PowerState := .PWR_IDLE
  pwrStatePostRefresh : PowerState := .PWR_IDLE
  pwrState : PowerState := .PWR_IDLE
  refreshState : RefreshState := .REF_IDLE
  inLowPowerState : Bool := false
  readEntries : ℕ := 0
  writeEntries : ℕ := 0
  outstandingEvents : ℕ := 0
  wakeUpAllowedAt : ℕ := 0
  cmdList : List Command := []
  banks : ℕ → Bank
  numBanksActive : ℕ := 0
  actTicks : List ℕ
  activateEvent : Option ℕ := none
  prechargeEvent : Option ℕ := none
  writeDoneEvent : Option ℕ := none
  wakeUpEvent : Option ℕ := none
  powerEvent : Option ℕ := none

/-- The constructor of `Rank`. -/
def Rank.new (p : DRAMCtrlParams) : Rank where
  banks b := { openRow := Bank.NO_ROW, bank := b % 2 ^ 8, bankgr := p.bankgr b }
  actTicks := List.replicate p.activation_limit 0

def Rank.inRefIdleState (rank : Rank) : Bool := rank.refreshState == .REF_IDLE

/-- A packet as the memory controllers see it: with the master that sent it and its priority. -/
structure MemPacket extends Packet where
  masterId : ℕ := 0
  qosValue : ℕ := 0
  deriving DecidableEq, Repr

/-- `DRAMCtrl::DRAMPacket`. `id` stands for the packet itself, and `burstHelper` for the helper
it points to. -/
structure DRAMPacket where
  id : ℕ
  entryTime : ℕ
  readyTime : ℕ
  pkt : MemPacket
  masterId : ℕ
  read : Bool
  rank : ℕ
  bank : ℕ
  row : ℕ
  bankId : ℕ
  addr : ℕ
  size : ℕ
  burstHelper : Option ℕ := none
  qosValue : ℕ
  deriving DecidableEq, Repr

/-- `DRAMCtrl::BurstHelper`. -/
structure BurstHelper where
  burstCount : ℕ
  burstsServiced : ℕ := 0
  deriving DecidableEq, Repr

/-- `MemCtrl::BusState`. -/
inductive BusState where
  | READ | WRITE
  deriving DecidableEq, Repr

/-- A call of `accessAndRespond`: the packet, and the static latency it is charged. -/
structure Response where
  pkt : MemPacket
  static_latency : ℕ
  deriving DecidableEq, Repr

/-- `DRAMCtrl` and its base class `QoS::MemCtrl`. The queues are vectors of queues, one for
each priority; a map from masters is a function. `new` numbers the packets and helpers that are
created, and `responses` is what `accessAndRespond` was called with. -/
structure DRAMCtrl where
  retryRdReq : Bool := false
  retryWrReq : Bool := false
  nextReqEvent : Option ℕ := none
  respondEvent : Option ℕ := none
  readQueue : List (List DRAMPacket)
  writeQueue : List (List DRAMPacket)
  isInWriteQueue : Finset ℕ := ∅
  respQueue : List DRAMPacket := []
  ranks : ℕ → Rank
  writesThisTime : ℕ := 0
  readsThisTime : ℕ := 0
  nextBurstAt : ℕ := 0
  prevArrival : ℕ := 0
  nextReqTime : ℕ := 0
  activeRank : ℕ := 0
  masters : List ℕ := []
  packetPriorities : ℕ → ℕ → ℕ := fun _ _ => 0
  requestTimes : ℕ → ℕ → List ℕ := fun _ _ => []
  serviceTick : ℕ → ℕ := fun _ => 0
  readQueueSizes : ℕ → ℕ := fun _ => 0
  writeQueueSizes : ℕ → ℕ := fun _ => 0
  totalReadQueueSize : ℕ := 0
  totalWriteQueueSize : ℕ := 0
  busState : BusState := .READ
  busStateNext : BusState := .READ
  helpers : ℕ → Option BurstHelper := fun _ => none
  new : ℕ := 0
  responses : List Response := []

namespace DRAMCtrl

/-- The constructor. -/
def construct (p : DRAMCtrlParams) : Except DRAMFault DRAMCtrl := do
  p.check
  pure
    { readQueue := List.replicate p.qos_priorities []
      writeQueue := List.replicate p.qos_priorities []
      ranks := fun _ => Rank.new p }

/-- `startup` in timing mode: the bus is busy long enough that the time of the next request is
never negative. -/
def startup (p : DRAMCtrlParams) (now : ℕ) (c : DRAMCtrl) : DRAMCtrl :=
  { c with nextBurstAt := now + p.tRP + p.tRCD }

end DRAMCtrl

/-! ## Opening and closing a row -/

namespace Rank

variable (p : DRAMCtrlParams)

/-- The loop of `activateBank` that enforces `tRRD`, or `tRRD_L` inside the bank group. -/
def enforceRRD (banks : ℕ → Bank) (b act_tick i : ℕ) : Bank :=
  if p.bankGroupArch && (banks b).bankgr == (banks i).bankgr then
    { banks i with actAllowedAt := max (act_tick + p.tRRD_L) (banks i).actAllowedAt }
  else
    { banks i with actAllowedAt := max (act_tick + p.tRRD) (banks i).actAllowedAt }

/-- The loop of `activateBank` that enforces `tXAW`. -/
def enforceXAW (banks : ℕ → Bank) (oldest i : ℕ) : Bank :=
  { banks i with actAllowedAt := max (oldest + p.tXAW) (banks i).actAllowedAt }

/-- The test `actTicks.back() && (act_tick - actTicks.back()) < tXAW`. The difference is one of
unsigned numbers, which is not small if it is negative. -/
def tooSoon (back act_tick : ℕ) : Bool :=
  back != 0 && decide (back ≤ act_tick) && decide (act_tick - back < p.tXAW)

/-- The part of `activateBank` that deals with `tXAW`. -/
def recordActivation (rank : Rank) (act_tick : ℕ) : Except DRAMFault Rank :=
  match rank.actTicks.getLast? with
  | none => pure rank
  | some back => do
      require (!tooSoon p back act_tick) .activate_window
      let actTicks := act_tick :: rank.actTicks.dropLast
      let back := (actTicks.getLast?).getD 0
      if tooSoon p back act_tick then
        pure { rank with actTicks := actTicks, banks := enforceXAW p rank.banks back }
      else
        pure { rank with actTicks := actTicks }

/-- The changes of `activateBank` to the bank itself. -/
def activated (bank : Bank) (act_tick row : ℕ) : Bank :=
  { bank with
    openRow := row
    bytesAccessed := 0
    rowAccesses := 0
    -- not the later of the two times: what the bank was allowed before no longer counts
    preAllowedAt := act_tick + p.tRAS
    rdAllowedAt := max (act_tick + p.tRCD) bank.rdAllowedAt
    wrAllowedAt := max (act_tick + p.tRCD) bank.wrAllowedAt }

/-- `activateBank`, for bank `b` of `rank`. -/
def activateBank (rank : Rank) (b act_tick row : ℕ) : Except DRAMFault Rank := do
  require (rank.actTicks.length == p.activation_limit) .act_ticks
  require ((rank.banks b).openRow == Bank.NO_ROW) .row_open
  require (decide (rank.numBanksActive + 1 ≤ p.banks_per_rank)) .too_many_active
  let banks := Function.update rank.banks b (activated p (rank.banks b) act_tick row)
  let rank ← recordActivation p
    { rank with
      numBanksActive := rank.numBanksActive + 1
      cmdList := rank.cmdList ++ [⟨.ACT, (rank.banks b).bank, act_tick⟩]
      banks := enforceRRD p banks b act_tick } act_tick
  -- the event is moved only to an earlier time
  pure { rank with activateEvent := some ((rank.activateEvent.map (min act_tick)).getD act_tick) }

/-- `prechargeBank`, for bank `b` of `rank`. -/
def prechargeBank (rank : Rank) (b pre_at : ℕ) (trace : Bool := true) :
    Except DRAMFault Rank := do
  let bank := rank.banks b
  require (bank.openRow != Bank.NO_ROW) .no_row_open
  require (rank.numBanksActive != 0) .none_active
  let pre_done_at := pre_at + p.tRP
  pure
    { rank with
      banks := Function.update rank.banks b
        { bank with
          openRow := Bank.NO_ROW
          preAllowedAt := pre_at
          actAllowedAt := max bank.actAllowedAt pre_done_at }
      numBanksActive := rank.numBanksActive - 1
      cmdList := if trace then rank.cmdList ++ [⟨.PRE, bank.bank, pre_at⟩] else rank.cmdList
      prechargeEvent := some ((rank.prechargeEvent.map (max pre_done_at)).getD pre_done_at)
      outstandingEvents :=
        if rank.prechargeEvent.isNone then rank.outstandingEvents + 1
        else rank.outstandingEvents }

/-- The command with which `scheduleWakeUpEvent` tells the power model of the wake-up. -/
def wakeUpCommand (rank : Rank) (wake_up_tick : ℕ) : List Command :=
  match rank.pwrStateTrans with
  | .PWR_ACT_PDN => [⟨.PUP_ACT, 0, wake_up_tick⟩]
  | .PWR_PRE_PDN => [⟨.PUP_PRE, 0, wake_up_tick⟩]
  | .PWR_SREF => [⟨.SREX, 0, wake_up_tick⟩]
  | _ => []

def scheduleWakeUpEvent (rank : Rank) (now exit_delay : ℕ) : Except DRAMFault Rank := do
  let wake_up_tick := max now rank.wakeUpAllowedAt
  require rank.wakeUpEvent.isNone .event_scheduled
  pure
    { rank with
      pwrStatePostRefresh :=
        if rank.refreshState = .REF_PD_EXIT then rank.pwrState else .PWR_IDLE
      wakeUpEvent := some wake_up_tick
      banks := fun i =>
        { rank.banks i with
          wrAllowedAt := max (wake_up_tick + exit_delay) (rank.banks i).wrAllowedAt
          rdAllowedAt := max (wake_up_tick + exit_delay) (rank.banks i).rdAllowedAt
          preAllowedAt := max (wake_up_tick + exit_delay) (rank.banks i).preAllowedAt
          actAllowedAt := max (wake_up_tick + exit_delay) (rank.banks i).actAllowedAt }
      inLowPowerState := false
      cmdList := rank.cmdList ++ rank.wakeUpCommand wake_up_tick }

/-- The first lines of `doDRAMAccess`: a rank in a low-power state is woken up. -/
def wakeForAccess (rank : Rank) (now : ℕ) : Except DRAMFault Rank :=
  if rank.inLowPowerState then do
    require (rank.pwrState != .PWR_SREF) .self_refresh
    rank.scheduleWakeUpEvent now p.tXP
  else
    pure rank

/-- "If there is a page open, precharge it." -/
def closeForAccess (rank : Rank) (now b : ℕ) : Except DRAMFault Rank :=
  if (rank.banks b).openRow != Bank.NO_ROW then
    rank.prechargeBank p b (max (rank.banks b).preAllowedAt now)
  else
    pure rank

/-- What `doDRAMAccess` does before the column command: nothing if the row is open. -/
def openForAccess (rank : Rank) (now b row : ℕ) : Except DRAMFault Rank :=
  if (rank.banks b).openRow == row then
    pure rank
  else do
    let rank ← rank.closeForAccess p now b
    rank.activateBank p b (max (rank.banks b).actAllowedAt now) row

/-- The end of `doDRAMAccess`: an access with auto-precharge closes the row behind it. -/
def closeAfterAccess (rank : Rank) (now b : ℕ) (auto_precharge : Bool) : Except DRAMFault Rank :=
  if auto_precharge then
    rank.prechargeBank p b (max now (rank.banks b).preAllowedAt)
  else
    pure rank

end Rank

/-! ## The column command -/

namespace DRAMCtrl

variable (p : DRAMCtrlParams)

/-- `dly_to_rd_cmd`, after a read or a write, for a bank of the same rank and bank group, of
the same rank, or of another rank. -/
def dlyToRdCmd (isRead sameRank sameGroup : Bool) : ℕ :=
  if sameRank then
    if sameGroup then (if isRead then p.tCCD_L else max p.tCCD_L p.wrToRdDly)
    else (if isRead then p.tBURST else p.wrToRdDly)
  else p.rankToRankDly

/-- `dly_to_wr_cmd`. -/
def dlyToWrCmd (isRead sameRank sameGroup : Bool) : ℕ :=
  if sameRank then
    if sameGroup then (if isRead then max p.tCCD_L p.rdToWrDly else p.tCCD_L_WR)
    else (if isRead then p.rdToWrDly else p.tBURST)
  else p.rankToRankDly

/-- The loop over all banks of all ranks: when the next burst may follow the command at
`cmd_at`. -/
def delayBanks (ranks : ℕ → Rank) (dram_pkt : DRAMPacket) (cmd_at j : ℕ) : Rank :=
  { ranks j with
    banks := fun i =>
      let bank := (ranks dram_pkt.rank).banks dram_pkt.bank
      let sameRank := dram_pkt.rank == j
      let sameGroup := p.bankGroupArch && bank.bankgr == ((ranks j).banks i).bankgr
      { (ranks j).banks i with
        rdAllowedAt := max (cmd_at + dlyToRdCmd p dram_pkt.read sameRank sameGroup)
          ((ranks j).banks i).rdAllowedAt
        wrAllowedAt := max (cmd_at + dlyToWrCmd p dram_pkt.read sameRank sameGroup)
          ((ranks j).banks i).wrAllowedAt } }

/-- The bank of the access after the command: a read holds back a precharge for `tRTP`, a write
until `tWR` after its data. -/
def accessed (bank : Bank) (isRead : Bool) (cmd_at readyTime : ℕ) : Bank :=
  { bank with
    preAllowedAt :=
      max bank.preAllowedAt (if isRead then cmd_at + p.tRTP else readyTime + p.tWR)
    bytesAccessed := bank.bytesAccessed + p.burstSize
    rowAccesses := bank.rowAccesses + 1 }

/-- The walk over the queues that the adaptive page policies make: `got_more_hits` and
`got_bank_conflict`. It passes over the packet at hand and stops at the first hit. -/
def scanQueue (dram_pkt : DRAMPacket) : List DRAMPacket → Bool → Bool × Bool
  | [], got_bank_conflict => (false, got_bank_conflict)
  | q :: rest, got_bank_conflict =>
    if q.id == dram_pkt.id then
      scanQueue dram_pkt rest got_bank_conflict
    else
      let same_rank_bank := dram_pkt.rank == q.rank && dram_pkt.bank == q.bank
      let same_row := dram_pkt.row == q.row
      if same_rank_bank && same_row then
        (true, got_bank_conflict)
      else
        scanQueue dram_pkt rest (got_bank_conflict || (same_rank_bank && !same_row))

/-- `auto_precharge`: is the row closed after the access? -/
def autoPrecharge (c : DRAMCtrl) (dram_pkt : DRAMPacket) (bank : Bank) : Bool :=
  if p.page_policy = .close || bank.rowAccesses == p.max_accesses_per_row then
    true
  else if p.page_policy = .open_adaptive || p.page_policy = .close_adaptive then
    -- the priority queues are searched one after the other
    let queue := if dram_pkt.read then c.readQueue else c.writeQueue
    let (got_more_hits, got_bank_conflict) := scanQueue dram_pkt queue.flatten false
    !got_more_hits && (got_bank_conflict || p.page_policy = .close_adaptive)
  else
    false

/-- `cmd_at`: the column command waits for its bank and for the bus. -/
def columnAt (c : DRAMCtrl) (now : ℕ) (isRead : Bool) (bank : Bank) : ℕ :=
  max (max (if isRead then bank.rdAllowedAt else bank.wrAllowedAt) c.nextBurstAt) now

/-- The rank of the access after the column command. -/
def columnIssued (rank : Rank) (dram_pkt : DRAMPacket) (cmd_at readyTime : ℕ) : Rank :=
  { rank with
    banks := Function.update rank.banks dram_pkt.bank
      (accessed p (rank.banks dram_pkt.bank) dram_pkt.read cmd_at readyTime)
    cmdList := rank.cmdList ++ [⟨if dram_pkt.read then .RD else .WR, dram_pkt.bank, cmd_at⟩] }

/-- `doDRAMAccess`. The packet comes back with its `readyTime`. -/
def doDRAMAccess (c : DRAMCtrl) (now : ℕ) (dram_pkt : DRAMPacket) :
    Except DRAMFault (DRAMCtrl × DRAMPacket) := do
  let rank ← (c.ranks dram_pkt.rank).wakeForAccess p now
  let rank ← rank.openForAccess p now dram_pkt.bank dram_pkt.row
  let cmd_at := c.columnAt now dram_pkt.read (rank.banks dram_pkt.bank)
  let readyTime := cmd_at + p.tCL + p.tBURST
  let ranks := delayBanks p (Function.update c.ranks dram_pkt.rank rank) dram_pkt cmd_at
  let rank := columnIssued p (ranks dram_pkt.rank) dram_pkt cmd_at readyTime
  let rank ← rank.closeAfterAccess p now dram_pkt.bank
    (c.autoPrecharge p dram_pkt (rank.banks dram_pkt.bank))
  let nextBurstAt := cmd_at + p.tBURST
  pure ({ c with
        ranks := Function.update ranks dram_pkt.rank rank
        activeRank := dram_pkt.rank
        nextBurstAt := nextBurstAt
        nextReqTime := nextBurstAt - (p.tRP + p.tRCD)
        readsThisTime := if dram_pkt.read then c.readsThisTime + 1 else c.readsThisTime
        writesThisTime := if dram_pkt.read then c.writesThisTime else c.writesThisTime + 1 },
      { dram_pkt with readyTime := readyTime })

end DRAMCtrl

end Bindu.Mem
