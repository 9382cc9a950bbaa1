/-
The synthetic traffic injector: `GarnetSyntheticTraffic`.

Every cycle `tick` draws a number, and if it is below the injection rate `generatePkt` computes a
destination from the number of the injector, makes a packet and gives it to the cache port. A
packet that the port does not take is kept in `retryPkt` until the port asks for it again.

Random draws and the answers of the port are inputs. The port is there with what the injector can
see of it: the packets it took, in order, and how many of the packets it turned away it has not
asked for again.

Destinations and coordinates are `int` and `unsigned` in the source, natural numbers here: for an
injector whose number is below `num_destinations` no difference below is negative, and no value
reaches `num_destinations`.
-/
import Bindu.Lib.Runs

open Bindu.Lib

namespace Bindu.Testers

/-! ## Destinations -/

inductive TrafficType
  | BIT_COMPLEMENT_ | BIT_REVERSE_ | BIT_ROTATION_ | NEIGHBOR_ | SHUFFLE_ | TORNADO_ | TRANSPOSE_
  | UNIFORM_RANDOM_
  deriving DecidableEq, Repr

/-- The loop of `BIT_REVERSE_`: the passes left, `straight` and `reverse`. -/
def reverseLoop : ℕ → ℕ → ℕ → ℕ
  | 0, _, reverse => reverse
  | i + 1, straight, reverse =>
    reverseLoop i (straight >>> 1) ((reverse <<< 1) ||| ((straight >>> 1) &&& 1))

/-- The destination `generatePkt` computes. `draw` is the number of `UNIFORM_RANDOM_`. -/
def destination (singleDest : ℤ) (traffic : TrafficType) (num_destinations id draw : ℕ) : ℕ :=
  let radix := Nat.sqrt num_destinations
  let src_x := id % radix
  let src_y := id / radix
  if 0 ≤ singleDest then singleDest.toNat
  else
    match traffic with
    | .UNIFORM_RANDOM_ => draw
    | .BIT_COMPLEMENT_ => (radix - src_y - 1) * radix + (radix - src_x - 1)
    | .BIT_REVERSE_ => reverseLoop (Nat.log2 num_destinations - 1) id (id &&& 1)
    | .BIT_ROTATION_ => if id % 2 = 0 then id / 2 else id / 2 + num_destinations / 2
    | .NEIGHBOR_ => src_y * radix + (src_x + 1) % radix
    | .SHUFFLE_ => if id < num_destinations / 2 then id * 2 else id * 2 - num_destinations + 1
    | .TRANSPOSE_ => src_x * radix + src_y
    -- the argument of `ceil` is a division of integers
    | .TORNADO_ => src_y * radix + (src_x + radix / 2 - 1) % radix

/-! ## The injector -/

inductive Command
  | ReadReq | WriteReq
  deriving DecidableEq, Repr

/-- A packet. `number` tells two packets with the same contents apart. -/
structure Packet where
  number : ℕ
  paddr : ℕ
  requestType : Command
  instFetch : Bool
  context : ℕ
  deriving DecidableEq, Repr

structure Params where
  id : ℕ
  blockSizeBits : ℕ
  numDestinations : ℕ
  simCycles : ℕ
  numPacketsMax : ℤ
  singleSender : ℤ
  singleDest : ℤ
  sim_type : ℤ
  traffic : TrafficType
  injRate : ℚ
  injVnet : ℤ
  precision : ℤ
  responseLimit : ℕ

structure Injector where
  retryPkt : Option Packet := none
  noResponseCycles : ℕ := 0
  numPacketsSent : ℤ := 0
  tickScheduled : Bool := true
  exitSimLoop : Bool := false
  /-- The packets `generatePkt` made. -/
  generated : List Packet := []
  /-- The packets the port took. -/
  accepted : List Packet := []
  /-- Packets turned away that the port has not asked for again. -/
  owed : ℕ := 0
  deriving DecidableEq

inductive Fault
  | deadlocked | unknown_sim_type | null_packet
  deriving DecidableEq, Repr

/-- What `tick` finds: the draws, the time, and the answer of the port if it is asked. -/
structure TickInput where
  trySending : ℕ
  destinationDraw : ℕ := 0
  vnetDraw : ℕ := 0
  curTick : ℕ := 0
  answer : Bool

def Params.injRange (P : Params) : ℚ := 10 ^ P.precision

/-- The bounds of the draws. -/
def Params.inRange (P : Params) (i : TickInput) : Bool :=
  i.trySending ≤ P.injRange.floor.toNat && i.destinationDraw ≤ P.numDestinations - 1
    && i.vnetDraw ≤ 2

namespace Injector

/-- `sendTimingReq` of a packet, with the answer the port gives. -/
def sendTimingReq (s : Injector) (pkt : Packet) (answer : Bool) : Injector :=
  if answer then { s with accepted := s.accepted ++ [pkt] } else { s with owed := s.owed + 1 }

def sendPkt (s : Injector) (pkt : Packet) (answer : Bool) : Injector :=
  let s := s.sendTimingReq pkt answer
  let s := if answer then s else { s with retryPkt := some pkt }
  { s with numPacketsSent := s.numPacketsSent + 1 }

/-- `paddr <<= blockSizeBits`, in the 64 bits of an address. -/
def makePkt (P : Params) (number : ℕ) (i : TickInput) : Packet :=
  let dest := destination P.singleDest P.traffic P.numDestinations P.id i.destinationDraw
  let injReqType : ℤ := if P.injVnet < 0 ∨ 2 < P.injVnet then i.vnetDraw else P.injVnet
  { number := number
    paddr := (dest <<< P.blockSizeBits) % 2 ^ 64
    requestType := if injReqType = 0 ∨ injReqType = 1 then .ReadReq else .WriteReq
    instFetch := injReqType = 1
    context := P.id }

def generatePkt (P : Params) (s : Injector) (i : TickInput) : Injector :=
  let pkt := makePkt P s.generated.length i
  { s with generated := s.generated ++ [pkt] }.sendPkt pkt i.answer

/-- `sendAllowedThisCycle` and `senderEnable`. -/
def sends (P : Params) (s : Injector) (i : TickInput) : Bool :=
  decide ((i.trySending : ℚ) < P.injRate * P.injRange)
    && !(decide (0 ≤ P.numPacketsMax) && decide (P.numPacketsMax ≤ s.numPacketsSent))
    && !(decide (0 ≤ P.singleSender) && decide ((P.id : ℤ) ≠ P.singleSender))

/-- The wakeup at the end of `tick`. -/
def scheduleWakeup (P : Params) (s : Injector) (i : TickInput) : Except Fault Injector :=
  if P.sim_type = 1 then
    if P.simCycles ≤ i.curTick then pure { s with exitSimLoop := true }
    else pure { s with tickScheduled := true }
  else if P.sim_type = 2 then pure { s with tickScheduled := true }
  else throw .unknown_sim_type

/-- `tick`. The event queue takes the event off before it calls it. -/
def tick (P : Params) (s : Injector) (i : TickInput) : Except Fault Injector :=
  let s := { s with tickScheduled := false, noResponseCycles := s.noResponseCycles + 1 }
  if P.responseLimit ≤ s.noResponseCycles then throw .deadlocked
  else if s.sends P i then (s.generatePkt P i).scheduleWakeup P i
  else s.scheduleWakeup P i

/-- `doRetry`. The port reads the packet it is given, so a null one is a fault. -/
def doRetry (s : Injector) (answer : Bool) : Except Fault Injector :=
  match s.retryPkt with
  | none => throw .null_packet
  | some pkt =>
    let s := s.sendTimingReq pkt answer
    pure (if answer then { s with retryPkt := none } else s)

def completeRequest (s : Injector) : Injector := { s with noResponseCycles := 0 }

end Injector

/-! ## Runs -/

inductive Event
  | tick (i : TickInput)
  /-- `recvReqRetry`. Afterwards the port still owes `rest` requests: it asks once for one packet
  it turned away, or once for several. -/
  | recvReqRetry (rest : ℕ) (answer : Bool)
  | recvTimingResp

/-- The injector with its port. A port asks again only for a packet it turned away. -/
def injector (P : Params) : Machine Injector Event Fault where
  enabled s
    | .tick i => P.inRange i
    | .recvReqRetry rest _ => rest < s.owed
    | .recvTimingResp => true
  exec s
    | .tick i => s.tick P i
    | .recvReqRetry rest answer => { s with owed := rest }.doRetry answer
    | .recvTimingResp => pure s.completeRequest

end Bindu.Testers
