/-
A miss status and handling register (`mem/cache/mshr.cc`), and what becomes of the requests
that are handed to it.

An MSHR stands for one block that was missed. The request that missed is its first target;
later requests for the block join it, either in the list of targets that the outstanding
response will serve, or, when that response cannot serve them, in the list of deferred
targets. Five operations move targets from one list to the other or out of the register, each
with its own condition for where to stop.

What matters to the requesters is the sequence of their own targets, the `FromCPU` ones: first
those in `targets`, then those in `deferredTargets`. Every operation either adds to the end of
this sequence, or takes from its front, or leaves it alone, however it redistributes it over
the two lists (`MshrCall.conserves`). That a request is answered once and in its turn follows
by induction over the calls.

The MSHRs of the caches above appear only with their `downstreamPending` flags, `Upstream`:
adding a target marks the MSHR that sent it, and clearing walks up again. How an upstream MSHR
passes the clearing on to the next level is part of its own register, not of this one.
-/
import Bindu.Mem.Packet

namespace Bindu.Mem

open Bindu.Lib List Ok

/-- `MSHR::Target::Source`. -/
inductive Source where
  | FromCPU | FromSnoop | FromPrefetcher
  deriving DecidableEq, Repr

/-- `MSHR::Target`. -/
structure Target where
  recvTime : Tick
  readyTime : Tick
  order : ℕ
  pkt : Packet
  source : Source
  markedPending : Bool
  allocOnFill : Bool
  deriving DecidableEq, Repr

/-- The `downstreamPending` flags of the MSHRs above. -/
abbrev Upstream := ℕ → Bool

/-- `MSHR::TargetList`: a list of targets with the flags that sum it up. -/
structure TargetList where
  list : List Target := []
  needsWritable : Bool := false
  hasUpgrade : Bool := false
  allocOnFill : Bool := false
  hasFromCache : Bool := false
  blkAddr : ℕ := 0
  blkSize : ℕ := 0
  onlyWrites : Bool := true
  writesBitmap : List Bool := []
  deriving DecidableEq, Repr

namespace TargetList

def resetFlags (l : TargetList) : TargetList :=
  { l with
    onlyWrites := true
    writesBitmap := l.writesBitmap.map (fun _ => false)
    needsWritable := false
    hasUpgrade := false
    allocOnFill := false
    hasFromCache := false }

/-- `init` gives the list its block; the targets in it stay. -/
def init (l : TargetList) (blk_addr blk_size : ℕ) : TargetList :=
  resetFlags
    { l with
      blkAddr := blk_addr
      blkSize := blk_size
      writesBitmap := replicate blk_size false }

def isReset (l : TargetList) : Bool :=
  !l.needsWritable && !l.hasUpgrade && !l.allocOnFill && !l.hasFromCache && l.onlyWrites

def isWholeLineWrite (l : TargetList) : Bool :=
  l.onlyWrites && l.writesBitmap.all id

/-- `std::fill(begin, begin + pkt->getSize(), true)`. -/
def markWritten (bitmap : List Bool) (offset size : ℕ) : List Bool :=
  bitmap.mapIdx (fun i b => b || (decide (offset ≤ i) && decide (i < offset + size)))

def updateWriteFlags (l : TargetList) (pkt : Packet) : TargetList :=
  if l.isWholeLineWrite then
    l
  else
    let can_merge_write := pkt.isWrite && !pkt.req.noMerge
    let l := { l with onlyWrites := l.onlyWrites && can_merge_write }
    if l.onlyWrites then
      { l with writesBitmap := markWritten l.writesBitmap (pkt.getOffset l.blkSize) pkt.size }
    else
      l

def updateFlags (l : TargetList) (pkt : Packet) (source : Source) (alloc_on_fill : Bool) :
    Except Fault TargetList := do
  if source = .FromSnoop then
    pure l
  else
    let writable ← pkt.needsWritable
    let l :=
      { l with
        needsWritable := l.needsWritable || writable
        hasUpgrade := l.hasUpgrade || pkt.isUpgrade || decide (pkt.cmd = .StoreCondReq)
        allocOnFill := l.allocOnFill || alloc_on_fill }
    if source = .FromPrefetcher then
      pure l
    else
      pure (updateWriteFlags { l with hasFromCache := l.hasFromCache || pkt.fromCache } pkt)

def populateFlags (l : TargetList) : Except Fault TargetList :=
  l.list.foldlM (fun l t => l.updateFlags t.pkt t.source t.allocOnFill) l.resetFlags

/-- With `markPending`, the MSHR above that sent the packet learns that its request is held up
here. The result says whether one was found. -/
def markSender (up : Upstream) (pkt : Packet) (markPending : Bool) :
    Except Fault (Upstream × Bool) :=
  match markPending, pkt.senderMSHR with
  | true, some mshr => do
      require (!up mshr) .downstream_pending
      pure (Function.update up mshr true, true)
  | _, _ => pure (up, false)

/-- `add` at tick `now`. -/
def add (up : Upstream) (l : TargetList) (now : Tick) (pkt : Packet) (readyTime order : ℕ)
    (source : Source) (markPending alloc_on_fill : Bool) :
    Except Fault (Upstream × TargetList) := do
  let l ← l.updateFlags pkt source alloc_on_fill
  let (up, markPending) ← markSender up pkt markPending
  pure (up,
    { l with list := l.list ++ [⟨now, readyTime, order, pkt, source, markPending, alloc_on_fill⟩] })

/-- One round of the loop of `replaceUpgrades`: the packet of an upgrade asks for the data
too, since the block it meant to upgrade is gone. -/
def replaceUpgrade (pkt : Packet) : Except Fault Packet := do
  let has_data := pkt.hasData || pkt.hasRespData
  let pkt :=
    match pkt.cmd with
    | .UpgradeReq => { pkt with cmd := .ReadExReq }
    | .SCUpgradeReq => { pkt with cmd := .SCUpgradeFailReq }
    | .StoreCondReq => { pkt with cmd := .StoreCondFailReq }
    | _ => pkt
  require (has_data || !pkt.hasData) .data_without_space
  pure pkt

/-- `replaceUpgrade`, made only when `replace` holds. -/
def replaceUpgradeIf (replace : Bool) (pkt : Packet) : Except Fault Packet :=
  if replace then replaceUpgrade pkt else pure pkt

def replaceUpgrades (l : TargetList) : Except Fault TargetList := do
  if l.hasUpgrade then
    let list ← l.list.mapM (fun t => do
      let pkt ← replaceUpgrade t.pkt
      pure { t with pkt := pkt })
    pure { l with list := list, hasUpgrade := false }
  else
    pure l

/-- `replaceUpgrades`, made only when `replace` holds. -/
def replaceUpgradesIf (l : TargetList) (replace : Bool) : Except Fault TargetList :=
  if replace then l.replaceUpgrades else pure l

/-- One round of the loop of `clearDownstreamPending`: a target that is marked is unmarked,
and so is the MSHR above that sent it. -/
def clearSender (up : Upstream) (t : Target) : Except Fault (Upstream × Target) :=
  match t.markedPending, t.pkt.senderMSHR with
  | true, some mshr => do
      -- `MSHR::clearDownstreamPending` of the MSHR above asserts its flag
      require (up mshr) .not_downstream_pending
      pure (Function.update up mshr false, { t with markedPending := false })
  | true, none => pure (up, { t with markedPending := false })
  | false, _ => pure (up, t)

/-- `clearDownstreamPending(begin, end)`, on the targets of that range. -/
def clearDownstreamPending (up : Upstream) : List Target → Except Fault (Upstream × List Target)
  | [] => pure (up, [])
  | t :: rest => do
      let (up, t) ← clearSender up t
      let (up, rest) ← clearDownstreamPending up rest
      pure (up, t :: rest)

/-- `clearDownstreamPending`, left out when `pending` holds. -/
def clearDownstreamPendingUnless (pending : Bool) (up : Upstream) (l : List Target) :
    Except Fault (Upstream × List Target) :=
  if pending then pure (up, l) else clearDownstreamPending up l

end TargetList

/-- An `MSHR`, with the fields of its `QueueEntry`. -/
structure MSHR where
  readyTime : Tick := 0
  _isUncacheable : Bool := false
  inService : Bool := false
  order : ℕ := 0
  blkAddr : ℕ := 0
  blkSize : ℕ := 0
  isSecure : Bool := false
  downstreamPending : Bool := false
  pendingModified : Bool := false
  postInvalidate : Bool := false
  postDowngrade : Bool := false
  wasWholeLineWrite : Bool := false
  isForward : Bool := false
  targets : TargetList := {}
  deferredTargets : TargetList := {}
  deriving DecidableEq, Repr

namespace MSHR

def isPendingModified (m : MSHR) : Except Fault Bool := do
  require m.inService .not_in_service
  pure m.pendingModified

def hasPostInvalidate (m : MSHR) : Except Fault Bool := do
  require m.inService .not_in_service
  pure m.postInvalidate

def hasPostDowngrade (m : MSHR) : Except Fault Bool := do
  require m.inService .not_in_service
  pure m.postDowngrade

def getNumTargets (m : MSHR) : ℕ := m.targets.list.length + m.deferredTargets.list.length

def hasTargets (m : MSHR) : Bool := !m.targets.list.isEmpty

/-- `targets.front()`; of an empty list there is none. -/
def front (m : MSHR) : Except Fault Target :=
  match m.targets.list with
  | [] => throw .empty_targets
  | t :: _ => pure t

def allocate (up : Upstream) (m : MSHR) (now : Tick) (blk_addr blk_size : ℕ) (target : Packet)
    (when_ready : Tick) (_order : ℕ) (alloc_on_fill : Bool) :
    Except Fault (Upstream × MSHR) := do
  let m :=
    { m with
      blkAddr := blk_addr
      blkSize := blk_size
      isSecure := target.isSecure
      readyTime := when_ready
      order := _order
      isForward := false
      wasWholeLineWrite := false
      _isUncacheable := target.req.isUncacheable
      inService := false
      downstreamPending := false
      targets := m.targets.init blk_addr blk_size
      deferredTargets := m.deferredTargets.init blk_addr blk_size }
  let source := if target.cmd = .HardPFReq then .FromPrefetcher else .FromCPU
  let (up, targets) ← m.targets.add up now target when_ready _order source true alloc_on_fill
  pure (up, { m with targets := targets })

/-- A downstream cache got the request going. -/
def clearDownstreamPending (up : Upstream) (m : MSHR) : Except Fault (Upstream × MSHR) := do
  require m.downstreamPending .not_downstream_pending
  let (up, list) ← TargetList.clearDownstreamPending up m.targets.list
  pure (up, { m with downstreamPending := false, targets := { m.targets with list := list } })

def markInService (up : Upstream) (m : MSHR) (pending_modified_resp : Bool) :
    Except Fault (Upstream × MSHR) := do
  require (!m.inService) .in_service
  let m :=
    { m with
      inService := true
      pendingModified := m.targets.needsWritable || pending_modified_resp
      postInvalidate := false
      postDowngrade := false }
  -- the request reached a level where it is going to get a response
  let (up, list) ← TargetList.clearDownstreamPendingUnless m.downstreamPending up m.targets.list
  let m := { m with targets := { m.targets with list := list } }
  pure (up, { m with wasWholeLineWrite := m.targets.isWholeLineWrite })

def deallocate (m : MSHR) : Except Fault MSHR := do
  require m.targets.list.isEmpty .targets_left
  require m.deferredTargets.isReset .targets_left
  pure { m with targets := m.targets.resetFlags, inService := false }

/-- The condition under which `allocateTarget` defers the new target. The disjunction is
evaluated from the left, so an accessor's assertion is made only where it is reached. -/
def mustDefer (m : MSHR) (pkt tgt_pkt : Packet) : Except Fault Bool := do
  if pkt.req.isCacheMaintenance || tgt_pkt.req.isCacheMaintenance
      || !m.deferredTargets.list.isEmpty then
    pure true
  else if !m.inService then
    pure false
  else if ← m.hasPostInvalidate then
    pure true
  else if ← pkt.needsWritable then
    if !(← m.isPendingModified) then
      pure true
    else if ← m.hasPostDowngrade then
      pure true
    else
      pure m.isForward
  else
    pure false

def allocateTarget (up : Upstream) (m : MSHR) (now : Tick) (pkt : Packet) (whenReady : Tick)
    (_order : ℕ) (alloc_on_fill : Bool) : Except Fault (Upstream × MSHR) := do
  require (pkt.cmd ≠ .HardPFReq) .target_source
  let tgt_pkt := (← m.front).pkt
  let defer ← m.mustDefer pkt tgt_pkt
  if defer then
    let pkt ← TargetList.replaceUpgradeIf (m.inService && m.postInvalidate) pkt
    let (up, deferredTargets) ←
      m.deferredTargets.add up now pkt whenReady _order .FromCPU true alloc_on_fill
    pure (up, { m with deferredTargets := deferredTargets })
  else
    let (up, targets) ←
      m.targets.add up now pkt whenReady _order .FromCPU (!m.inService) alloc_on_fill
    pure (up, { m with targets := targets })

/-- The flags that `handleSnoop` sets on a snooped packet which it will respond to. -/
def respondTo (will_respond : Bool) (pkt : Packet) : Except Fault Packet :=
  if will_respond then do
    let pkt ← pkt.setCacheResponding
    pkt.setResponderHadWritable
  else
    pure pkt

/-- A clean operation that finds the block pending as modified is satisfied. -/
def satisfyClean (pendingModified : Bool) (pkt : Packet) : Except Fault Packet :=
  if pendingModified && pkt.isClean then pkt.setSatisfied else pure pkt

/-- The part of `handleSnoop` that saves the snooped packet for later. `cp_pkt` is the packet
that the copy becomes. -/
def saveSnoop (up : Upstream) (m : MSHR) (now : Tick) (pkt : Packet) (_order cp_pkt : ℕ) :
    Except Fault (Upstream × MSHR × Packet) := do
  let pendingModified ← m.isPendingModified
  let writable ← pkt.needsWritable
  let will_respond := pendingModified && pkt.needsResponse && !pkt.isClean
  let copy := if will_respond then pkt.copyCleared cp_pkt else pkt.copyBlock cp_pkt m.blkSize
  let pkt ← respondTo will_respond pkt
  let (up, targets) ← m.targets.add up now copy now _order .FromSnoop
    (m.downstreamPending && m.targets.needsWritable) false
  let m :=
    { m with
      targets := targets
      postInvalidate := m.postInvalidate || writable || pkt.isInvalidate }
  let pkt ← satisfyClean pendingModified pkt
  pure (up, m, pkt)

/-- `handleSnoop` once the request of this MSHR is known to come before the snooped one. -/
def handleLaterSnoop (up : Upstream) (m : MSHR) (now : Tick) (pkt : Packet)
    (_order cp_pkt : ℕ) (writable : Bool) : Except Fault (Upstream × MSHR × Packet × Bool) := do
  let tgt_pkt := (← m.front).pkt
  let postInvalidate ← m.hasPostInvalidate
  if postInvalidate || tgt_pkt.req.isCacheInvalidate then
    pure (up, m, pkt, true)
  else
    let pendingModified ← m.isPendingModified
    let (up, m, pkt) ←
      (if pendingModified || pkt.isInvalidate then
        m.saveSnoop up now pkt _order cp_pkt
      else
        pure (up, m, pkt) : Except Fault (Upstream × MSHR × Packet))
    if !writable && !pkt.req.isUncacheable then
      pure (up, { m with postDowngrade := true }, pkt.setHasSharers, true)
    else
      pure (up, m, pkt, true)

/-- `handleSnoop`: whether the MSHR takes care of the snoop, and the snooped packet with the
flags set on it. -/
def handleSnoop (up : Upstream) (m : MSHR) (now : Tick) (pkt : Packet) (_order cp_pkt : ℕ) :
    Except Fault (Upstream × MSHR × Packet × Bool) := do
  let writable ← pkt.needsWritable
  require (writable == pkt.isInvalidate || pkt.req.isCacheMaintenance) .snoop_mismatch
  let replace := writable || pkt.req.isCacheInvalidate
  if !m.inService || (pkt.isExpressSnoop && m.downstreamPending) then
    -- the snooped request comes before the one of this MSHR
    let targets ← m.targets.replaceUpgradesIf replace
    let deferredTargets ← m.deferredTargets.replaceUpgradesIf replace
    pure (up, { m with targets := targets, deferredTargets := deferredTargets }, pkt, false)
  else
    let deferredTargets ← m.deferredTargets.replaceUpgradesIf replace
    { m with deferredTargets := deferredTargets }.handleLaterSnoop up now pkt _order cp_pkt writable

/-- The loop of `extractServiceableTargets` for a response that invalidates: what it takes out
and what it leaves. -/
def takeOthers : List Target → Except Fault (List Target × List Target)
  | [] => pure ([], [])
  | t :: rest => do
      if t.source = .FromCPU then
        let (ready, left) ← takeOthers rest
        pure (ready, t :: left)
      else
        require (t.source = .FromSnoop) .target_source
        let (ready, left) ← takeOthers rest
        pure (t :: ready, left)

def extractServiceableTargets (m : MSHR) (cmd : MemCmd) : Except Fault (TargetList × MSHR) := do
  let ready_targets : TargetList := TargetList.init {} m.blkAddr m.blkSize
  if cmd = .ReadRespWithInvalidate then
    match m.targets.list with
    | [] => throw .empty_targets
    | first :: rest =>
      require (first.source = .FromCPU || first.source = .FromPrefetcher) .target_source
      let (ready, left) ← takeOthers rest
      let ready_targets ← { ready_targets with list := first :: ready }.populateFlags
      let targets ← { m.targets with list := left }.populateFlags
      pure (ready_targets, { m with targets := targets })
  else
    -- the two lists are swapped
    let targets ← ready_targets.populateFlags
    pure (m.targets, { m with targets := targets })

/-- How `promoteDeferredTargets` splices the two lists. It looks for the first deferred cache
maintenance request and promotes what is in front of it; a maintenance request in front of all
others is promoted alone, and only to an empty list. -/
def spliceDeferred (targets deferred : List Target) : List Target × List Target :=
  let ahead := fun t : Target => !t.pkt.req.isCacheMaintenance
  match deferred with
  | [] => (targets, [])
  | t :: rest =>
    if ahead t then
      (targets ++ deferred.takeWhile ahead, deferred.dropWhile ahead)
    else if targets.isEmpty then
      ([t], rest)
    else
      (targets, t :: rest)

/-- `promoteDeferredTargets` at tick `now`. -/
def promoteDeferredTargets (m : MSHR) (now : Tick) : Except Fault (Bool × MSHR) := do
  if m.targets.list.isEmpty && m.deferredTargets.list.isEmpty then
    pure (false, m)
  else
    let spliced := spliceDeferred m.targets.list m.deferredTargets.list
    let deferredTargets ← { m.deferredTargets with list := spliced.2 }.populateFlags
    let targets ← { m.targets with list := spliced.1 }.populateFlags
    let m := { m with targets := targets, deferredTargets := deferredTargets }
    let front ← m.front
    pure (true, { m with order := front.order, readyTime := max now front.readyTime })

/-- `find_if_not`: the deferred targets in front of the first one that fails the test, and the
rest. The test asserts that it looks at a target of the CPU side. -/
def splitDeferred (pred : Target → Except Fault Bool) :
    List Target → Except Fault (List Target × List Target)
  | [] => pure ([], [])
  | t :: rest => do
      if ← pred t then
        let (first, left) ← splitDeferred pred rest
        pure (t :: first, left)
      else
        pure ([], t :: rest)

def promoteIf (up : Upstream) (m : MSHR) (pred : Target → Except Fault Bool) :
    Except Fault (Upstream × MSHR) := do
  require (!m.downstreamPending) .downstream_pending
  let (first, left) ← splitDeferred pred m.deferredTargets.list
  let (up, first) ← TargetList.clearDownstreamPending up first
  let deferredTargets ← { m.deferredTargets with list := left }.populateFlags
  pure (up,
    { m with
      targets := { m.targets with list := m.targets.list ++ first }
      deferredTargets := deferredTargets })

def promoteReadable (up : Upstream) (m : MSHR) : Except Fault (Upstream × MSHR) := do
  if m.deferredTargets.list.isEmpty then
    pure (up, m)
  else if ← m.hasPostInvalidate then
    pure (up, m)
  else
    m.promoteIf up (fun t => do
      require (t.source = .FromCPU) .target_source
      if t.pkt.req.isCacheInvalidate then
        pure false
      else
        pure (!(← t.pkt.needsWritable)))

def promoteWritable (up : Upstream) (m : MSHR) : Except Fault (Upstream × MSHR) := do
  if !m.deferredTargets.needsWritable then
    pure (up, m)
  else if (← m.hasPostInvalidate) || (← m.hasPostDowngrade) then
    pure (up, m)
  else
    require (!m.targets.needsWritable) .targets_writable
    let m := { m with targets := { m.targets with needsWritable := true } }
    m.promoteIf up (fun t => do
      require (t.source = .FromCPU) .target_source
      pure (!t.pkt.req.isCacheInvalidate))

def popTarget (m : MSHR) : MSHR :=
  { m with targets := { m.targets with list := m.targets.list.tail } }

/-- `MSHR::delay`: ready again `delay_ticks` from now. -/
def delay (m : MSHR) (now : Tick) (delay_ticks : ℕ) : Except Fault MSHR := do
  require (m.readyTime ≤ now) .ready_time
  pure { m with readyTime := now + delay_ticks }

end MSHR

/-! ## The requests held by a register -/

/-- The members of a target that are `const`: a target stays the same target while its packet's
command and its `markedPending` flag change. -/
structure Fixed where
  recvTime : Tick
  readyTime : Tick
  order : ℕ
  pkt : ℕ
  source : Source
  allocOnFill : Bool
  deriving DecidableEq, Repr

def Target.fixed (t : Target) : Fixed :=
  ⟨t.recvTime, t.readyTime, t.order, t.pkt.id, t.source, t.allocOnFill⟩

/-- What the flags of a list and the tests of the register look at. -/
def Target.role (t : Target) : Source × Bool × Request :=
  (t.source, t.pkt.cmd.needsWritable, t.pkt.req)

/-- Does the target make its list need a writable copy? -/
def needs (r : Source × Bool × Request) : Bool := decide (r.1 ≠ .FromSnoop) && r.2.1

/-- What stays of a target when its packet's command is replaced or it is unmarked. -/
def Target.lasting (t : Target) : Fixed × Source × Bool × Request := (t.fixed, t.role)

/-- The targets among `l` that a requester handed in. -/
def requests (l : List Target) : List Fixed :=
  (l.map Target.fixed).filter (fun t => decide (t.source = .FromCPU))

theorem requests_nil : requests [] = [] := rfl

theorem requests_append (l l' : List Target) :
    requests (l ++ l') = requests l ++ requests l' := by
  simp [requests]

theorem requests_cons (t : Target) (l : List Target) :
    requests (t :: l) = requests [t] ++ requests l :=
  requests_append [t] l

theorem requests_of_other {t : Target} (h : t.source ≠ .FromCPU) : requests [t] = [] := by
  simp [requests, Target.fixed, h]

/-- The requests a register holds, in the order in which it will serve them. -/
def MSHR.held (m : MSHR) : List Fixed :=
  requests m.targets.list ++ requests m.deferredTargets.list

/-- The queue that an MSHR is in looks at these two fields only. -/
structure SameEntry (m m' : MSHR) : Prop where
  readyTime : m'.readyTime = m.readyTime
  inService : m'.inService = m.inService

theorem SameEntry.rfl' (m : MSHR) : SameEntry m m := ⟨rfl, rfl⟩

/-- The flags that sum up a list of targets. -/
inductive Flag where
  | needsWritable | hasUpgrade | allocOnFill | hasFromCache
  deriving DecidableEq, Repr

instance : Fintype Flag :=
  ⟨{.needsWritable, .hasUpgrade, .allocOnFill, .hasFromCache}, fun f => by cases f <;> decide⟩

/-- The flags that `updateFlags` sets for a target. It asserts that the packet of a target which
is not from a snoop is a request. -/
def Target.sets (t : Target) : Flag → Bool
  | .needsWritable => needs t.role
  | .hasUpgrade => decide (t.source ≠ .FromSnoop) && t.pkt.isRequest
      && (t.pkt.isUpgrade || decide (t.pkt.cmd = .StoreCondReq))
  | .allocOnFill => decide (t.source ≠ .FromSnoop) && t.allocOnFill
  | .hasFromCache => decide (t.source = .FromCPU) && t.pkt.fromCache

/-- The target once `clearDownstreamPending` has been through. -/
def Target.unmarked (t : Target) : Target := { t with markedPending := false }

namespace TargetList

/-- No fault is excluded: the statements below are about calls that return. -/
abbrev Any : Fault → Prop := fun _ => True

def flag (l : TargetList) : Flag → Bool
  | .needsWritable => l.needsWritable
  | .hasUpgrade => l.hasUpgrade
  | .allocOnFill => l.allocOnFill
  | .hasFromCache => l.hasFromCache

/-- Every flag that a target would set is set. -/
def Covers (l : TargetList) : Prop := ∀ t ∈ l.list, ∀ f, t.sets f = true → l.flag f = true

/-- `l'` has the targets and the flags of `l` and those of `t`. -/
structure Added (l : TargetList) (t : Target) (l' : TargetList) : Prop where
  list : l'.list = l.list ++ [t]
  flag : ∀ f, l'.flag f = (l.flag f || t.sets f)

/-- The targets stay what they are, and so does what the flags say of them. -/
structure Kept (l l' : TargetList) : Prop where
  lasting : l'.list.map Target.lasting = l.list.map Target.lasting
  needsWritable : l'.needsWritable = l.needsWritable
  covers : l.Covers → l'.Covers

theorem Kept.rfl' (l : TargetList) : Kept l l := ⟨rfl, rfl, id⟩

theorem Kept.roles {l l' : TargetList} (h : Kept l l') :
    l'.list.map Target.role = l.list.map Target.role := by
  have hrole := congrArg (map Prod.snd) h.lasting
  rwa [map_map, map_map] at hrole

theorem Kept.requests {l l' : TargetList} (h : Kept l l') :
    requests l'.list = requests l.list := by
  have hfixed := congrArg (map Prod.fst) h.lasting
  rw [map_map, map_map] at hfixed
  exact congrArg (filter _) hfixed

variable (up : Upstream) (l : TargetList)

theorem updateFlags_ok (t : Target) :
    Ok (fun l' => l'.list = l.list ∧ ∀ f, l'.flag f = (l.flag f || t.sets f)) Any
      (l.updateFlags t.pkt t.source t.allocOnFill) := by
  unfold updateFlags
  cases hsource : t.source with
  | FromSnoop => exact ⟨rfl, fun f => by cases f <;> simp [Target.sets, needs, Target.role, hsource]⟩
  | FromPrefetcher =>
    refine bind (Q := fun writable => writable = t.pkt.cmd.needsWritable ∧ t.pkt.isRequest = true)
      (assert (fun hreq => ⟨rfl, hreq⟩)) (fun writable hw => ?_)
    refine ⟨rfl, fun f => ?_⟩
    cases f <;> simp [Target.sets, needs, Target.role, hsource, hw, flag, Bool.or_assoc]
  | FromCPU =>
    refine bind (Q := fun writable => writable = t.pkt.cmd.needsWritable ∧ t.pkt.isRequest = true)
      (assert (fun hreq => ⟨rfl, hreq⟩)) (fun writable hw => ?_)
    -- whichever write flags change, the list and the other flags do not
    have hwrite : ∀ l1 : TargetList, (updateWriteFlags l1 t.pkt).list = l1.list
        ∧ ∀ f, (updateWriteFlags l1 t.pkt).flag f = l1.flag f := by
      intro l1
      unfold updateWriteFlags
      dsimp only
      split_ifs <;> exact ⟨rfl, fun f => by cases f <;> rfl⟩
    refine ⟨(hwrite _).1, fun f => ((hwrite _).2 f).trans ?_⟩
    cases f <;> simp [Target.sets, needs, Target.role, hsource, hw, flag, Bool.or_assoc]

theorem populateFlags_ok :
    Ok (fun l' => l'.list = l.list ∧ ∀ f, l'.flag f = l.list.any (·.sets f)) Any
      l.populateFlags := by
  have hloop : ∀ (rest : List Target) (l0 : TargetList),
      Ok (fun l' => l'.list = l0.list ∧ ∀ f, l'.flag f = (l0.flag f || rest.any (·.sets f))) Any
        (rest.foldlM (fun l t => l.updateFlags t.pkt t.source t.allocOnFill) l0) := by
    intro rest
    induction rest with
    | nil => exact fun l0 => ⟨rfl, fun f => (Bool.or_false _).symm⟩
    | cons t rest ih =>
      intro l0
      rw [foldlM_cons]
      refine bind (updateFlags_ok l0 t) (fun l1 h1 => ?_)
      refine (ih l1).imp (fun l' h' => ⟨h'.1.trans h1.1, fun f => ?_⟩)
      rw [h'.2, h1.2, any_cons, Bool.or_assoc]
  refine (hloop l.list l.resetFlags).imp (fun l' h' => ⟨h'.1, fun f => (h'.2 f).trans ?_⟩)
  cases f <;> rfl

theorem populateFlags_list :
    Ok (fun l' => l'.list = l.list
      ∧ l'.needsWritable = (l.list.map Target.role).any needs) Any l.populateFlags := by
  refine (populateFlags_ok l).imp fun l' h => ⟨h.1, (h.2 .needsWritable).trans ?_⟩
  rw [any_map]
  rfl

theorem add_ok (now : Tick) (pkt : Packet) (ready order : ℕ) (source : Source)
    (markPending alloc : Bool) :
    Ok (fun r => ∃ marked, Added l ⟨now, ready, order, pkt, source, marked, alloc⟩ r.2) Any
      (l.add up now pkt ready order source markPending alloc) := by
  unfold add
  refine bind (updateFlags_ok l ⟨now, ready, order, pkt, source, false, alloc⟩) (fun l' hl' => ?_)
  refine skip (fun r => ?_)
  refine ⟨r.2, by rw [hl'.1], fun f => Eq.trans ?_ (hl'.2 f)⟩
  cases f <;> rfl

theorem upgrade_cases (cmd : MemCmd)
    (h : (cmd.isRequest && (cmd.isUpgrade || decide (cmd = .StoreCondReq))) = true) :
    cmd = .UpgradeReq ∨ cmd = .SCUpgradeReq ∨ cmd = .StoreCondReq := by
  cases cmd <;> first | exact absurd h (by decide) | decide

/-- A target whose packet gets the command `cmd`, which is no upgrade but otherwise like its own. -/
theorem sets_replaced {t : Target} {cmd : MemCmd}
    (hwritable : cmd.needsWritable = t.pkt.cmd.needsWritable)
    (hcache : cmd.fromCache = t.pkt.cmd.fromCache)
    (hupgrade : (cmd.isUpgrade || decide (cmd = .StoreCondReq)) = false) :
    { t with pkt := { t.pkt with cmd := cmd } }.lasting = t.lasting
      ∧ ∀ f, { t with pkt := { t.pkt with cmd := cmd } }.sets f = true
        → f ≠ .hasUpgrade ∧ t.sets f = true := by
  refine ⟨by simp only [Target.lasting, Target.fixed, Target.role, hwritable], fun f hf => ?_⟩
  cases f with
  | needsWritable => exact ⟨by decide, by simpa [Target.sets, Target.role, hwritable] using hf⟩
  | hasUpgrade => simp [Target.sets, Packet.isUpgrade, hupgrade] at hf
  | allocOnFill => exact ⟨by decide, hf⟩
  | hasFromCache => exact ⟨by decide, by simpa [Target.sets, Packet.fromCache, hcache] using hf⟩

theorem replaceUpgrade_ok (t : Target) :
    Ok (fun pkt => { t with pkt := pkt }.lasting = t.lasting
        ∧ ∀ f, { t with pkt := pkt }.sets f = true → f ≠ .hasUpgrade ∧ t.sets f = true) Any
      (replaceUpgrade t.pkt) := by
  unfold replaceUpgrade
  refine assert (fun _ => ?_)
  split
  next h => exact sets_replaced (by rw [h]; rfl) (by rw [h]; rfl) rfl
  next h => exact sets_replaced (by rw [h]; rfl) (by rw [h]; rfl) rfl
  next h => exact sets_replaced (by rw [h]; rfl) (by rw [h]; rfl) rfl
  next h1 h2 h3 =>
    refine ⟨rfl, fun f hf => ⟨?_, hf⟩⟩
    rintro rfl
    simp only [Target.sets, Bool.and_assoc, Bool.and_eq_true] at hf
    rcases upgrade_cases t.pkt.cmd (Bool.and_eq_true_iff.2 hf.2) with h | h | h
    · exact h1 h
    · exact h2 h
    · exact h3 h

/-- The loop of `replaceUpgrades`: only commands change. -/
theorem replace_ok (l : List Target) :
    Ok (fun l' => l'.map Target.lasting = l.map Target.lasting
        ∧ ∀ t' ∈ l', ∃ t ∈ l, ∀ f, t'.sets f = true → f ≠ .hasUpgrade ∧ t.sets f = true) Any
      (l.mapM (fun t => do
        let pkt ← replaceUpgrade t.pkt
        pure { t with pkt := pkt })) := by
  induction l with
  | nil => exact ⟨rfl, fun t ht => absurd ht not_mem_nil⟩
  | cons t rest ih =>
    rw [mapM_cons]
    refine bind (Q := fun t' : Target => t'.lasting = t.lasting
      ∧ ∀ f, t'.sets f = true → f ≠ .hasUpgrade ∧ t.sets f = true)
      (bind (replaceUpgrade_ok t) (fun pkt hpkt => hpkt)) (fun t' ht' => ?_)
    refine bind ih (fun rest' hrest => ?_)
    rw [pure_iff, map_cons, map_cons, ht'.1, hrest.1, forall_mem_cons]
    refine ⟨rfl, ⟨t, mem_cons_self, ht'.2⟩, fun s hs => ?_⟩
    obtain ⟨s0, hs0, hsets⟩ := hrest.2 s hs
    exact ⟨s0, mem_cons_of_mem t hs0, hsets⟩

theorem replaceUpgradeIf_lasting (replace : Bool) (t : Target) :
    Ok (fun pkt => { t with pkt := pkt }.lasting = t.lasting) Any
      (replaceUpgradeIf replace t.pkt) := by
  unfold replaceUpgradeIf
  split
  · exact (replaceUpgrade_ok t).imp fun _ h => h.1
  · exact rfl

theorem replaceUpgradesIf_kept (replace : Bool) :
    Ok (Kept l) Any (l.replaceUpgradesIf replace) := by
  unfold replaceUpgradesIf replaceUpgrades
  split_ifs
  · refine bind (replace_ok l.list) (fun list hlist => ?_)
    refine ⟨hlist.1, rfl, fun h t' ht' f hf => ?_⟩
    obtain ⟨t, ht, hsets⟩ := hlist.2 t' ht'
    obtain ⟨hne, hf⟩ := hsets f hf
    have := h t ht f hf
    cases f with
    | hasUpgrade => exact absurd rfl hne
    | _ => exact this
  · exact Kept.rfl' l
  · exact Kept.rfl' l

theorem clearSender_unmarked (t : Target) :
    Ok (fun r => r.2 = t.unmarked) Any (clearSender up t) := by
  unfold clearSender
  split
  next => exact assert (fun _ => rfl)
  next => exact rfl
  next h =>
    rw [pure_iff, Target.unmarked, ← h]

theorem clearDownstreamPending_unmarked (l : List Target) :
    Ok (fun r => r.2 = l.map Target.unmarked) Any (clearDownstreamPending up l) := by
  induction l generalizing up with
  | nil => exact rfl
  | cons t rest ih =>
    unfold clearDownstreamPending
    refine bind (clearSender_unmarked up t) (fun r hr => ?_)
    refine bind (ih r.1) (fun r' hr' => ?_)
    rw [pure_iff, map_cons, hr, hr']

theorem clearDownstreamPending_kept :
    Ok (fun r => Kept l { l with list := r.2 }) Any (clearDownstreamPending up l.list) := by
  refine (clearDownstreamPending_unmarked up l.list).imp fun r hr => ?_
  refine ⟨by rw [hr, map_map]; rfl, rfl, fun h t ht f hf => ?_⟩
  rw [hr] at ht
  obtain ⟨t0, ht0, rfl⟩ := mem_map.1 ht
  have := h t0 ht0 f (by cases f <;> exact hf)
  cases f <;> exact this

theorem clearDownstreamPendingUnless_kept (pending : Bool) :
    Ok (fun r => Kept l { l with list := r.2 }) Any
      (clearDownstreamPendingUnless pending up l.list) := by
  unfold clearDownstreamPendingUnless
  split
  · exact Kept.rfl' l
  · exact clearDownstreamPending_kept up l

end TargetList

namespace MSHR

open TargetList

/-- Is a packet deferred? -/
def defers (m : MSHR) (pkt : Packet) : Bool :=
  decide ((m.front >>= fun t => m.mustDefer pkt t.pkt).toOption = some true)

theorem held_congr {m m' : MSHR} (ht : Kept m.targets m'.targets)
    (hd : Kept m.deferredTargets m'.deferredTargets) : m'.held = m.held := by
  rw [held, held, ht.requests, hd.requests]

/-- A register that keeps its deferred targets and whose targets get one more at the end, while
nothing is deferred behind it. -/
theorem held_append_targets {m m' : MSHR} {t : Target} (ht : Added m.targets t m'.targets)
    (hdeferred : requests m'.deferredTargets.list = requests m.deferredTargets.list)
    (hnone : requests [t] = [] ∨ m.deferredTargets.list = []) :
    m'.held = m.held ++ requests [t] := by
  rw [held, held, ht.list, requests_append, hdeferred]
  rcases hnone with hnone | hnone
  · rw [hnone, append_nil, append_nil]
  · rw [hnone, requests_nil, append_nil, append_nil]

variable (up : Upstream) (m : MSHR) (now : Tick)

theorem allocate_conserves (blk_addr blk_size : ℕ) (target : Packet) (when_ready : Tick)
    (order : ℕ) (alloc : Bool) (hempty : m.getNumTargets = 0) :
    Ok (fun r => r.2.held = m.held ++ [(⟨now, when_ready, order, target.id,
                if target.cmd = .HardPFReq then .FromPrefetcher else .FromCPU, alloc⟩ : Fixed)].filter
              (fun t => decide (t.source = .FromCPU))
        ∧ r.2.readyTime = when_ready ∧ r.2.inService = false) Any
      (m.allocate up now blk_addr blk_size target when_ready order alloc) := by
  have hdeferred : m.deferredTargets.list = [] := by
    rw [getNumTargets] at hempty
    exact length_eq_zero_iff.mp (by omega)
  unfold allocate
  refine bind (add_ok ..) (fun r ⟨marked, hr⟩ => ?_)
  refine ⟨?_, rfl, rfl⟩
  rw [held, held, hr.list, requests_append, hdeferred, requests_nil, append_nil]
  simp only [init, resetFlags, hdeferred, requests_nil, append_nil]
  rfl

theorem clearDownstreamPending_kept :
    Ok (fun r => ∃ targets, Kept m.targets targets
        ∧ r.2 = { m with downstreamPending := false, targets := targets }) Any
      (m.clearDownstreamPending up) := by
  unfold clearDownstreamPending
  refine assert (fun _ => ?_)
  refine bind (TargetList.clearDownstreamPending_kept up m.targets) (fun r hr => ?_)
  exact ⟨_, hr, rfl⟩

theorem clearDownstreamPending_held :
    Ok (fun r => r.2.held = m.held ∧ SameEntry m r.2) Any (m.clearDownstreamPending up) := by
  refine (clearDownstreamPending_kept up m).imp ?_
  rintro r ⟨targets, ht, hm⟩
  rw [hm]
  exact ⟨held_congr ht (Kept.rfl' _), rfl, rfl⟩

theorem markInService_kept (resp : Bool) :
    Ok (fun r => m.inService = false ∧ r.2.inService = true ∧ r.2.readyTime = m.readyTime
        ∧ Kept m.targets r.2.targets ∧ Kept m.deferredTargets r.2.deferredTargets) Any
      (m.markInService up resp) := by
  unfold markInService
  refine assert (fun hservice => ?_)
  refine bind (clearDownstreamPendingUnless_kept up m.targets _) (fun r hr => ?_)
  exact ⟨by simpa using hservice, rfl, rfl, hr, Kept.rfl' _⟩

theorem deallocate_held :
    Ok (fun m' => m'.held = m.held ∧ m.targets.list = [] ∧ m'.inService = false) Any
      m.deallocate := by
  unfold deallocate
  refine assert (fun hempty => ?_)
  refine assert (fun _ => ?_)
  exact ⟨rfl, isEmpty_iff.mp hempty, rfl⟩

/-- Only a register without deferred targets takes a new target into its target list. -/
theorem mustDefer_false (pkt tgt_pkt : Packet) :
    Ok (fun b => b = false → m.deferredTargets.list = []) Any (m.mustDefer pkt tgt_pkt) := by
  unfold mustDefer
  split
  · rw [pure_iff]
    intro hfalse
    simp at hfalse
  next hfirst =>
    -- the list is empty, whatever the remaining tests return
    have hempty : m.deferredTargets.list = [] := by
      simp only [Bool.or_eq_true, Bool.not_eq_true', not_or, Bool.not_eq_false] at hfirst
      exact isEmpty_iff.mp hfirst.2
    exact (triv _).imp (fun _ _ _ => hempty)

/-- **`allocateTarget`.** The new target is the last of the deferred ones, or there is none of
these and it is the last of the others. -/
theorem allocateTarget_ok (pkt : Packet) (whenReady : Tick) (order : ℕ) (alloc : Bool) :
    Ok (fun r => ∃ t : Target,
        t.lasting = (⟨now, whenReady, order, pkt.id, .FromCPU, alloc⟩, .FromCPU,
          pkt.cmd.needsWritable, pkt.req)
        ∧ ∃ l, m.defers pkt = true ∧ Added m.deferredTargets t l
              ∧ r.2 = { m with deferredTargets := l }
            ∨ m.deferredTargets.list = [] ∧ Added m.targets t l ∧ r.2 = { m with targets := l })
      Any (m.allocateTarget up now pkt whenReady order alloc) := by
  unfold allocateTarget
  refine assert (fun _ => ?_)
  cases hfront : m.front with
  | error e => exact trivial
  | ok front =>
  rw [ok_bind]
  dsimp only
  cases hdefer : m.mustDefer pkt front.pkt with
  | error e => exact trivial
  | ok defer =>
  rw [ok_bind]
  cases defer with
  | true =>
    refine bind (replaceUpgradeIf_lasting _ ⟨now, whenReady, order, pkt, .FromCPU, false, alloc⟩)
      (fun pkt' hpkt => ?_)
    refine bind (add_ok ..) (fun r ⟨marked, hr⟩ => ?_)
    refine ⟨_, ?_, _, .inl ⟨?_, hr, rfl⟩⟩
    · exact hpkt
    · rw [defers, hfront, ok_bind, hdefer]
      rfl
  | false =>
    refine bind (add_ok ..) (fun r ⟨marked, hr⟩ => ?_)
    exact ⟨_, rfl, _, .inr ⟨(mustDefer_false m pkt front.pkt).elim hdefer rfl, hr, rfl⟩⟩

theorem allocateTarget_conserves (pkt : Packet) (whenReady : Tick) (order : ℕ) (alloc : Bool) :
    Ok (fun r => r.2.held = m.held ++ [⟨now, whenReady, order, pkt.id, .FromCPU, alloc⟩]
        ∧ SameEntry m r.2) Any
      (m.allocateTarget up now pkt whenReady order alloc) := by
  refine (allocateTarget_ok up m now pkt whenReady order alloc).imp ?_
  rintro r ⟨t, hlasting, l, hr⟩
  have ht : requests [t] = [⟨now, whenReady, order, pkt.id, .FromCPU, alloc⟩] := by
    rw [requests, map_singleton, show t.fixed = _ from congrArg Prod.fst hlasting]
    rfl
  rcases hr with ⟨-, hadd, hm⟩ | ⟨hnone, hadd, hm⟩
  · rw [hm, held, held, hadd.list, requests_append, ht, append_assoc]
    exact ⟨rfl, rfl, rfl⟩
  · rw [hm, ← ht]
    exact ⟨held_append_targets hadd rfl (.inr hnone), rfl, rfl⟩

/-- What a snoop does to a register. -/
structure Snooped (m m' : MSHR) : Prop where
  deferred : Kept m.deferredTargets m'.deferredTargets
  targets : Kept m.targets m'.targets
    ∨ ∃ t : Target, t.source = .FromSnoop ∧ Added m.targets t m'.targets
  entry : SameEntry m m'
  post : (m.postInvalidate || m.postDowngrade) = true
    → (m'.postInvalidate || m'.postDowngrade) = true

theorem Snooped.rfl' (m : MSHR) : Snooped m m :=
  ⟨Kept.rfl' _, .inl (Kept.rfl' _), SameEntry.rfl' m, id⟩

theorem handleLaterSnoop_ok (pkt : Packet) (order cp_pkt : ℕ) (writable : Bool) :
    Ok (fun r => Snooped m r.2.1) Any (m.handleLaterSnoop up now pkt order cp_pkt writable) := by
  unfold handleLaterSnoop
  refine skip (fun front => ?_)
  refine skip (fun postInvalidate => ?_)
  split
  · exact Snooped.rfl' m
  refine skip (fun pendingModified => ?_)
  refine bind (Q := fun r : Upstream × MSHR × Packet => Snooped m r.2.1) ?_ ?_
  · split
    · unfold saveSnoop
      refine skip (fun pendingModified => ?_)
      refine skip (fun writable => ?_)
      refine skip (fun pkt' => ?_)
      refine bind (add_ok ..) (fun r hr => ?_)
      refine skip (fun pkt'' => ?_)
      obtain ⟨marked, hr⟩ := hr
      refine ⟨Kept.rfl' _, .inr ⟨_, rfl, hr⟩, ⟨rfl, rfl⟩, fun hpost => ?_⟩
      rw [Bool.or_eq_true] at hpost ⊢
      exact hpost.imp_left fun hp => by rw [hp]; rfl
    · exact Snooped.rfl' m
  · rintro ⟨up', m', pkt'⟩ hm
    dsimp only
    split
    · exact ⟨hm.deferred, hm.targets, ⟨hm.entry.readyTime, hm.entry.inService⟩,
        fun _ => Bool.or_true _⟩
    · exact hm

theorem handleSnoop_ok (pkt : Packet) (order cp_pkt : ℕ) :
    Ok (fun r => Snooped m r.2.1) Any (m.handleSnoop up now pkt order cp_pkt) := by
  unfold handleSnoop
  refine skip (fun writable => ?_)
  refine assert (fun _ => ?_)
  split
  · refine bind (replaceUpgradesIf_kept m.targets _) (fun targets ht => ?_)
    refine bind (replaceUpgradesIf_kept m.deferredTargets _) (fun deferred hd => ?_)
    exact ⟨hd, .inl ht, ⟨rfl, rfl⟩, id⟩
  · refine bind (replaceUpgradesIf_kept m.deferredTargets _) (fun deferred hd => ?_)
    refine (handleLaterSnoop_ok up _ now pkt order cp_pkt writable).imp (fun r hr => ?_)
    refine ⟨?_, hr.targets, ⟨hr.entry.readyTime, hr.entry.inService⟩, hr.post⟩
    have hk := hr.deferred
    exact ⟨hk.lasting.trans hd.lasting, hk.needsWritable.trans hd.needsWritable,
      fun h => hk.covers (hd.covers h)⟩

theorem Snooped.held {m m' : MSHR} (h : Snooped m m') : m'.held = m.held := by
  rcases h.targets with ht | ⟨t, hsource, ht⟩
  · exact held_congr ht h.deferred
  · -- a target from a snoop is not one of the requests
    have hnone : requests [t] = [] := requests_of_other (by rw [hsource]; decide)
    rw [held_append_targets ht h.deferred.requests (.inl hnone), hnone, append_nil]

/-- What an invalidating response takes out after the first target holds no request. -/
theorem takeOthers_requests (l : List Target) :
    Ok (fun r => requests r.1 = [] ∧ requests r.2 = requests l) Any (takeOthers l) := by
  induction l with
  | nil => exact ⟨rfl, rfl⟩
  | cons t rest ih =>
    unfold takeOthers
    split
    · refine bind ih (fun r hr => ⟨hr.1, ?_⟩)
      rw [requests_cons, requests_cons t rest, hr.2]
    next hcpu =>
      refine assert (fun _ => bind ih (fun r hr => ?_))
      rw [requests_cons t rest, requests_of_other hcpu, nil_append, pure_iff, requests_cons,
        requests_of_other hcpu, nil_append]
      exact hr

/-- `extractServiceableTargets` takes requests from the front, and the first target is among
what it takes. -/
theorem extractServiceableTargets_conserves (cmd : MemCmd) :
    Ok (fun r => m.held = requests r.1.list ++ r.2.held
        ∧ r.1.list.head? = m.targets.list.head? ∧ SameEntry m r.2) Any
      (m.extractServiceableTargets cmd) := by
  unfold extractServiceableTargets
  split
  · cases hlist : m.targets.list with
    | nil => exact trivial
    | cons first rest =>
      refine assert (fun _ => ?_)
      refine bind (takeOthers_requests rest) (fun r hr => ?_)
      refine bind (populateFlags_list _) (fun ready hready => ?_)
      refine bind (populateFlags_list _) (fun targets htargets => ?_)
      refine ⟨?_, ?_, rfl, rfl⟩
      · rw [held, held, hlist, hready.1, htargets.1, requests_cons, requests_cons first r.1, hr.1,
          hr.2, append_nil, append_assoc]
      · rw [hready.1]
        rfl
  · refine bind (populateFlags_list _) (fun targets htargets => ?_)
    refine ⟨?_, rfl, rfl, rfl⟩
    rw [held, held, htargets.1]
    rfl

/-- Wherever `spliceDeferred` cuts, the two lists are the same sequence of targets as before,
and the first of them is empty only if there is no target at all. -/
theorem spliceDeferred_append (targets deferred : List Target) :
    (spliceDeferred targets deferred).1 ++ (spliceDeferred targets deferred).2
        = targets ++ deferred := by
  unfold spliceDeferred
  cases deferred with
  | nil => rfl
  | cons t rest =>
    dsimp only
    split_ifs with hahead hempty
    · rw [append_assoc, takeWhile_append_dropWhile]
    · rw [isEmpty_iff.mp hempty]
      rfl
    · rfl

theorem spliceDeferred_ne_nil {targets deferred : List Target}
    (h : ¬(targets.isEmpty && deferred.isEmpty) = true) :
    (spliceDeferred targets deferred).1 ≠ [] := by
  unfold spliceDeferred
  cases deferred with
  | nil => simpa using h
  | cons t rest =>
    dsimp only
    split_ifs with hahead hempty
    · simp [hahead]
    · simp
    · simpa using hempty

theorem promoteDeferredTargets_held :
    Ok (fun r => r.2.held = m.held ∧ r.2.inService = m.inService
        ∧ (r.1 = true → r.2.targets.list ≠ [])
        ∧ (r.1 = false → r.2 = m ∧ m.targets.list = [] ∧ m.deferredTargets.list = [])) Any
      (m.promoteDeferredTargets now) := by
  unfold promoteDeferredTargets
  split
  next hempty =>
    rw [Bool.and_eq_true, List.isEmpty_iff, List.isEmpty_iff] at hempty
    exact ⟨rfl, rfl, fun h => absurd h (by simp), fun _ => ⟨rfl, hempty⟩⟩
  next hempty =>
    refine bind (populateFlags_list _) (fun deferred hdeferred => ?_)
    refine bind (populateFlags_list _) (fun targets htargets => ?_)
    refine skip (fun front => ?_)
    refine ⟨?_, rfl, fun _ => htargets.1 ▸ spliceDeferred_ne_nil hempty, fun h => absurd h (by simp)⟩
    rw [held, held, htargets.1, hdeferred.1, ← requests_append, spliceDeferred_append,
      requests_append]

theorem splitDeferred_ok (pred : Target → Except Fault Bool) (l : List Target) :
    Ok (fun r => r.1 ++ r.2 = l ∧ ∀ t ∈ r.1, pred t = .ok true) Any (splitDeferred pred l) := by
  induction l with
  | nil => exact ⟨rfl, fun t ht => absurd ht not_mem_nil⟩
  | cons t rest ih =>
    unfold splitDeferred
    cases hpred : pred t with
    | error e => exact trivial
    | ok b =>
      rw [ok_bind]
      cases b with
      | false => exact ⟨rfl, fun t ht => absurd ht not_mem_nil⟩
      | true =>
        refine bind ih (fun r hr => ?_)
        rw [pure_iff, cons_append, hr.1]
        exact ⟨rfl, forall_mem_cons.2 ⟨hpred, hr.2⟩⟩

/-- What `promoteIf` leaves: the targets in front of the first one that fails the test join the
others, whose flags stay. -/
theorem promoteIf_ok (pred : Target → Except Fault Bool) :
    Ok (fun r => ∃ first left deferred, splitDeferred pred m.deferredTargets.list = .ok (first, left)
        ∧ (deferred.list = left ∧ ∀ f, deferred.flag f = left.any (·.sets f))
        ∧ r.2 = { m with
            targets := { m.targets with list := m.targets.list ++ first.map Target.unmarked }
            deferredTargets := deferred }) Any (m.promoteIf up pred) := by
  unfold promoteIf
  refine assert (fun _ => ?_)
  cases hsplit : splitDeferred pred m.deferredTargets.list with
  | error e => exact trivial
  | ok split =>
    rw [ok_bind]
    refine bind (clearDownstreamPending_unmarked up split.1) (fun cleared hcleared => ?_)
    refine bind (populateFlags_ok _) (fun deferred hdeferred => ?_)
    refine ⟨split.1, split.2, deferred, rfl, hdeferred, ?_⟩
    rw [hcleared]

theorem requests_unmarked (l : List Target) : requests (l.map Target.unmarked) = requests l := by
  rw [requests, map_map]
  rfl

theorem promoteIf_held (pred : Target → Except Fault Bool) :
    Ok (fun r => r.2.held = m.held ∧ SameEntry m r.2) Any (m.promoteIf up pred) := by
  refine (promoteIf_ok up m pred).imp ?_
  rintro r ⟨first, left, deferred, hsplit, hdeferred, hm⟩
  have hlist := ((splitDeferred_ok pred m.deferredTargets.list).elim hsplit).1
  rw [hm]
  refine ⟨?_, rfl, rfl⟩
  rw [held, held, hdeferred.1, requests_append, requests_unmarked, ← hlist, requests_append,
    append_assoc]

theorem promoteReadable_held :
    Ok (fun r => r.2.held = m.held ∧ SameEntry m r.2) Any (m.promoteReadable up) := by
  unfold promoteReadable
  split
  · exact ⟨rfl, SameEntry.rfl' m⟩
  refine skip (fun post => ?_)
  cases post with
  | true => exact ⟨rfl, SameEntry.rfl' m⟩
  | false => exact promoteIf_held up m _

theorem promoteWritable_held :
    Ok (fun r => r.2.held = m.held ∧ SameEntry m r.2) Any (m.promoteWritable up) := by
  unfold promoteWritable
  split
  · exact ⟨rfl, SameEntry.rfl' m⟩
  refine skip (fun postInvalidate => ?_)
  refine skip (fun postDowngrade => ?_)
  split
  · exact ⟨rfl, SameEntry.rfl' m⟩
  refine assert (fun _ => ?_)
  refine (promoteIf_held up _ _).imp (fun r hr => ?_)
  exact ⟨hr.1, hr.2.readyTime, hr.2.inService⟩

end MSHR

/-! ## Calls on one register -/

/-- The calls that a cache makes on an MSHR. -/
inductive MshrCall where
  | allocate (blk_addr blk_size : ℕ) (target : Packet) (when_ready : Tick) (order : ℕ)
      (alloc_on_fill : Bool)
  | allocateTarget (pkt : Packet) (whenReady : Tick) (order : ℕ) (alloc_on_fill : Bool)
  | markInService (pending_modified_resp : Bool)
  | handleSnoop (pkt : Packet) (order cp_pkt : ℕ)
  | promoteReadable
  | promoteWritable
  | extractServiceableTargets (cmd : MemCmd)
  | promoteDeferredTargets
  /-- `MSHRQueue::markPending`: the register goes back to the queue for another request. -/
  | markPending
  | deallocate
  /-- The request was held up in a cache below, or is not any more. -/
  | setDownstreamPending
  | clearDownstreamPending
  /-- `sendMSHRQueuePacket` notes whether the request is a simple forward. -/
  | setForward (isForward : Bool)

namespace MshrCall

/-- What a call leaves behind: the register, and the targets that the cache now serves. -/
structure Outcome where
  up : Upstream
  mshr : MSHR
  extracted : List Target

open MSHR in
/-- The call at tick `now`. -/
def apply (up : Upstream) (now : Tick) (m : MSHR) : MshrCall → Except Fault Outcome
  | allocate blk_addr blk_size target when_ready order alloc_on_fill => do
      -- `MSHRQueue::allocate`, which makes the call, asserts this first
      require (m.getNumTargets == 0) .targets_left
      let r ← m.allocate up now blk_addr blk_size target when_ready order alloc_on_fill
      pure ⟨r.1, r.2, []⟩
  | allocateTarget pkt whenReady order alloc_on_fill => do
      let r ← m.allocateTarget up now pkt whenReady order alloc_on_fill
      pure ⟨r.1, r.2, []⟩
  | markInService resp => do
      let r ← m.markInService up resp
      pure ⟨r.1, r.2, []⟩
  | handleSnoop pkt order cp_pkt => do
      let r ← m.handleSnoop up now pkt order cp_pkt
      pure ⟨r.1, r.2.1, []⟩
  | promoteReadable => do
      let r ← m.promoteReadable up
      pure ⟨r.1, r.2, []⟩
  | promoteWritable => do
      let r ← m.promoteWritable up
      pure ⟨r.1, r.2, []⟩
  | extractServiceableTargets cmd => do
      let r ← m.extractServiceableTargets cmd
      pure ⟨up, r.2, r.1.list⟩
  | promoteDeferredTargets => do
      let r ← m.promoteDeferredTargets now
      pure ⟨up, r.2, []⟩
  | markPending => do
      require m.inService .not_in_service
      pure ⟨up, { m with inService := false }, []⟩
  | deallocate => do
      let m ← m.deallocate
      pure ⟨up, m, []⟩
  | setDownstreamPending => do
      -- `TargetList::add` of the cache below asserts that the flag is clear
      require (!m.downstreamPending) .downstream_pending
      pure ⟨up, { m with downstreamPending := true }, []⟩
  | clearDownstreamPending => do
      let r ← m.clearDownstreamPending up
      pure ⟨r.1, r.2, []⟩
  | setForward isForward => pure ⟨up, { m with isForward := isForward }, []⟩

/-- The value of the cache's order counter that a call is made with. -/
def order : MshrCall → Option ℕ
  | allocate _ _ _ _ order _ => some order
  | allocateTarget _ _ order _ => some order
  | handleSnoop _ order _ => some order
  | _ => none

/-- The request that a call at tick `now` hands in. -/
def handed (now : Tick) : MshrCall → List Fixed
  | allocate _ _ target when_ready order alloc_on_fill =>
    [(⟨now, when_ready, order, target.id,
      if target.cmd = .HardPFReq then .FromPrefetcher else .FromCPU, alloc_on_fill⟩ : Fixed)].filter
      (fun t => decide (t.source = .FromCPU))
  | allocateTarget pkt whenReady order alloc_on_fill =>
    [⟨now, whenReady, order, pkt.id, .FromCPU, alloc_on_fill⟩]
  | _ => []

/-- **One call.** The requests held before and the one handed in are, in this order, the ones
taken out and the ones held after. -/
theorem conserves (up : Upstream) (now : Tick) (m : MSHR) (c : MshrCall) :
    Ok (fun out => m.held ++ c.handed now = requests out.extracted ++ out.mshr.held)
      TargetList.Any (c.apply up now m) := by
  cases c with
  | allocate blk_addr blk_size target when_ready order alloc =>
    refine assert (fun hempty => ?_)
    refine bind (MSHR.allocate_conserves up m now blk_addr blk_size target when_ready order
      alloc (beq_iff_eq.mp hempty)) (fun r hr => ?_)
    exact hr.1.symm
  | allocateTarget pkt whenReady order alloc =>
    refine bind (MSHR.allocateTarget_conserves up m now pkt whenReady order alloc) (fun r hr => ?_)
    exact hr.1.symm
  | markInService resp =>
    refine bind (MSHR.markInService_kept up m resp) (fun r hr => ?_)
    exact (append_nil _).trans (MSHR.held_congr hr.2.2.2.1 hr.2.2.2.2).symm
  | handleSnoop pkt order cp_pkt =>
    refine bind (MSHR.handleSnoop_ok up m now pkt order cp_pkt) (fun r hr => ?_)
    exact (append_nil _).trans hr.held.symm
  | promoteReadable =>
    refine bind (MSHR.promoteReadable_held up m) (fun r hr => ?_)
    exact (append_nil _).trans hr.1.symm
  | promoteWritable =>
    refine bind (MSHR.promoteWritable_held up m) (fun r hr => ?_)
    exact (append_nil _).trans hr.1.symm
  | extractServiceableTargets cmd =>
    refine bind (MSHR.extractServiceableTargets_conserves m cmd) (fun r hr => ?_)
    exact (append_nil _).trans hr.1
  | promoteDeferredTargets =>
    refine bind (MSHR.promoteDeferredTargets_held m now) (fun r hr => ?_)
    exact (append_nil _).trans hr.1.symm
  | markPending => exact assert (fun _ => append_nil _)
  | deallocate =>
    refine bind (MSHR.deallocate_held m) (fun m' hm' => ?_)
    exact (append_nil _).trans hm'.1.symm
  | setDownstreamPending => exact assert (fun _ => append_nil _)
  | clearDownstreamPending =>
    refine bind (MSHR.clearDownstreamPending_held up m) (fun r hr => ?_)
    exact (append_nil _).trans hr.1.symm
  | setForward isForward => exact append_nil _

/-- A request that is handed in carries the value of the order counter of its call. -/
theorem order_of_handed {now : Tick} {c : MshrCall} {t : Fixed} (h : t ∈ c.handed now) :
    c.order = some t.order := by
  cases c with
  | allocate blk_addr blk_size target when_ready order alloc =>
    have ht := mem_of_mem_filter h
    rw [mem_singleton] at ht
    rw [ht]
    rfl
  | allocateTarget pkt whenReady order alloc =>
    rw [handed, mem_singleton] at h
    rw [h]
    rfl
  | _ => exact absurd h not_mem_nil

theorem handed_length_le (now : Tick) (c : MshrCall) : (c.handed now).length ≤ 1 := by
  cases c with
  | allocate blk_addr blk_size target when_ready order alloc => exact length_filter_le ..
  | _ => first | exact Nat.le_refl 1 | exact Nat.zero_le 1

/-- The order counter after the call. -/
def nextOrder (n : ℕ) (c : MshrCall) : ℕ :=
  match c.order with
  | some order => order + 1
  | none => n

end MshrCall

/-- A sequence of calls on one register that all returned, up to register `m`. The requests in
`handed` were handed in and those in `extracted` were taken out to be served, each list in the
order of the calls. The order counter of the cache, which is at `n`, only grows, and the flags
of the MSHRs above may change between the calls in any way. -/
inductive MshrRun : MSHR → List Fixed → List Fixed → ℕ → Prop
  | start : MshrRun {} [] [] 0
  | call {m : MSHR} {handed extracted : List Fixed} {n : ℕ} (up : Upstream) (now : Tick)
      (c : MshrCall) (out : MshrCall.Outcome) (run : MshrRun m handed extracted n)
      (counter : ∀ order, c.order = some order → n ≤ order)
      (returns : c.apply up now m = .ok out) :
      MshrRun out.mshr (handed ++ c.handed now) (extracted ++ requests out.extracted)
        (c.nextOrder n)

namespace MshrRun

variable {m : MSHR} {handed extracted : List Fixed} {n : ℕ}

/-- **A run.** What was handed in is what was taken out, followed by what is held. -/
theorem handed_eq (run : MshrRun m handed extracted n) : handed = extracted ++ m.held := by
  induction run with
  | start => rfl
  | call up now c out run counter returns ih =>
    rw [ih, append_assoc, (c.conserves up now _).elim returns, append_assoc]

theorem handed_sorted (run : MshrRun m handed extracted n) :
    handed.Pairwise (fun a b => a.order < b.order) ∧ ∀ t ∈ handed, t.order < n := by
  induction run with
  | start => exact ⟨Pairwise.nil, fun t ht => absurd ht not_mem_nil⟩
  | @call m handed extracted n up now c out run counter returns ih =>
    obtain ⟨hsorted, hbound⟩ := ih
    have hnew : ∀ t ∈ c.handed now, n ≤ t.order ∧ c.nextOrder n = t.order + 1 := by
      intro t ht
      have horder := MshrCall.order_of_handed ht
      refine ⟨counter _ horder, ?_⟩
      rw [MshrCall.nextOrder, horder]
    have hnext : n ≤ c.nextOrder n := by
      rw [MshrCall.nextOrder]
      cases horder : c.order with
      | none => exact le_refl n
      | some order => exact le_trans (counter order horder) (Nat.le_succ order)
    constructor
    · rw [pairwise_append]
      refine ⟨hsorted, ?_, fun a ha b hb => lt_of_lt_of_le (hbound a ha) (hnew b hb).1⟩
      -- a call hands in one request at most
      match hlist : c.handed now, c.handed_length_le now with
      | [], _ => exact Pairwise.nil
      | [t], _ => exact pairwise_singleton _ t
      | _ :: _ :: _, hlength => simp at hlength
    · intro t ht
      rcases mem_append.mp ht with hold | ht
      · exact lt_of_lt_of_le (hbound t hold) hnext
      · rw [(hnew t ht).2]
        exact Nat.lt_succ_self _

end MshrRun

/-- **The targets of a register are neither lost, duplicated nor reordered.** After any
sequence of calls: the requests in the target list followed by those in the deferred list are
in increasing order of their order counter; the requests handed in so far are exactly those
that were extracted, in this order, followed by those still held, and no two of them are the
same; an extraction takes the first target of a non-empty list; and `promoteDeferredTargets`
returns true only with a target in the target list, and false only when nothing is held, so
that everything handed in has been extracted. -/
theorem targets_kept_in_order {m : MSHR} {handed extracted : List Fixed} {n : ℕ}
    (run : MshrRun m handed extracted n) :
    (requests m.targets.list ++ requests m.deferredTargets.list).Pairwise
        (fun a b => a.order < b.order)
      ∧ handed = extracted ++ (requests m.targets.list ++ requests m.deferredTargets.list)
      ∧ handed.Pairwise (fun a b => a.order < b.order)
      ∧ (∀ cmd ready m', m.extractServiceableTargets cmd = .ok (ready, m') →
          ready.list.head? = m.targets.list.head?)
      ∧ (∀ now m', m.promoteDeferredTargets now = .ok (true, m') → m'.targets.list ≠ [])
      ∧ (∀ now m', m.promoteDeferredTargets now = .ok (false, m') →
          m'.targets.list = [] ∧ m'.deferredTargets.list = [] ∧ handed = extracted) := by
  have heq : handed = extracted ++ m.held := run.handed_eq
  have hsorted := run.handed_sorted.1
  refine ⟨?_, heq, hsorted, ?_, ?_, ?_⟩
  · rw [heq, pairwise_append] at hsorted
    exact hsorted.2.1
  · intro cmd ready m' hextract
    exact ((MSHR.extractServiceableTargets_conserves m cmd).elim hextract).2.1
  · intro now m' hpromote
    exact ((MSHR.promoteDeferredTargets_held m now).elim hpromote).2.2.1 rfl
  · intro now m' hpromote
    obtain ⟨rfl, htargets, hdeferred⟩ :=
      ((MSHR.promoteDeferredTargets_held m now).elim hpromote).2.2.2 rfl
    refine ⟨htargets, hdeferred, ?_⟩
    rw [heq, MSHR.held, htargets, hdeferred, requests_nil, append_nil, append_nil]

/-- The calls of a list, one after the other, with no MSHR above. -/
def runMshrCalls : List (Tick × MshrCall) → MSHR × List Fixed × List Fixed × ℕ →
    Option (MSHR × List Fixed × List Fixed × ℕ)
  | [], st => some st
  | (now, c) :: rest, (m, handed, extracted, n) =>
    match c.apply (fun _ => false) now m with
    | .error _ => none
    | .ok out =>
      if n ≤ c.order.getD n then
        runMshrCalls rest (out.mshr, handed ++ c.handed now,
          extracted ++ requests out.extracted, c.nextOrder n)
      else
        none

theorem mshrRun_of_runMshrCalls {calls : List (Tick × MshrCall)}
    {st st' : MSHR × List Fixed × List Fixed × ℕ} (run : MshrRun st.1 st.2.1 st.2.2.1 st.2.2.2)
    (h : runMshrCalls calls st = some st') : MshrRun st'.1 st'.2.1 st'.2.2.1 st'.2.2.2 := by
  induction calls generalizing st with
  | nil =>
    rw [runMshrCalls, Option.some.injEq] at h
    rw [← h]
    exact run
  | cons call rest ih =>
    obtain ⟨now, c⟩ := call
    rw [runMshrCalls] at h
    cases hout : c.apply (fun _ => false) now st.1 with
    | error e => simp [hout] at h
    | ok out =>
      simp only [hout] at h
      by_cases hn : st.2.2.2 ≤ c.order.getD st.2.2.2
      · rw [if_pos hn] at h
        refine ih (MshrRun.call _ now c out run (fun order horder => ?_) hout) h
        rw [horder] at hn
        exact hn
      · rw [if_neg hn] at h
        simp at h

/-- A read that misses, a clean of the block and a write behind it, and the response to the
read: the clean is then the only target that is promoted. -/
def readCleanWrite : List (Tick × MshrCall) :=
  [(10, .allocate 64 64 { id := 1, cmd := .ReadSharedReq, addr := 64, size := 64 } 12 0 true),
   (11, .allocateTarget { id := 2, cmd := .CleanSharedReq, req := { CLEAN := true } } 13 1 true),
   (12, .markInService false),
   (13, .allocateTarget { id := 3, cmd := .WriteReq, addr := 64, size := 8 } 15 2 true),
   (20, .extractServiceableTargets .ReadResp),
   (20, .promoteDeferredTargets)]

theorem targets_kept_in_order_readCleanWrite :
    ∃ (m : MSHR) (handed extracted : List Fixed) (n : ℕ),
      MshrRun m handed extracted n ∧ handed.map Fixed.order = [0, 1, 2]
        ∧ extracted.map Fixed.order = [0]
        ∧ (requests m.targets.list ++ requests m.deferredTargets.list).Pairwise
            (fun a b => a.order < b.order) := by
  have h : ((runMshrCalls readCleanWrite ({}, [], [], 0)).map
      (fun st => (st.2.1.map Fixed.order, st.2.2.1.map Fixed.order))) = some ([0, 1, 2], [0]) := by
    decide +kernel
  obtain ⟨st, hst, heq⟩ := Option.map_eq_some_iff.mp h
  have run := mshrRun_of_runMshrCalls MshrRun.start hst
  rw [Prod.mk.injEq] at heq
  exact ⟨st.1, st.2.1, st.2.2.1, st.2.2.2, run, heq.1, heq.2, (targets_kept_in_order run).1⟩

end Bindu.Mem
