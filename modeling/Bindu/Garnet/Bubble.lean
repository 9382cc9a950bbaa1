/-
The bubbles: `GarnetNetwork::init_brownian_bubbles`, `init_brownian_bubbles_cbs`,
`set_bubble_inport`, `move_intra_bubble`, `move_inter_bubble`, `move_inter_bubble_cbs`,
`move_next_router` and `move_next_router_cbs`.

A bubble is an empty virtual channel 0 of an input port, withheld from the router upstream
by taking one of its credits. It moves by changing places with another virtual channel 0,
which is either free or holds a packet.

Source: `garnet2.0/GarnetNetwork.cc`.
-/
import Bindu.Garnet.Units

open Bindu.Lib

namespace Bindu.Garnet

open InputUnit

namespace NetState

/-- `bubble.at(id)`. -/
def getBubble (s : NetState) (id : ℕ) : Except Fault brownian_bubble :=
  match s.bubble[id]? with
  | some b => pure b
  | none => throw .bubble_count

def setBubble (s : NetState) (id : ℕ) (b : brownian_bubble) : NetState :=
  { s with bubble := s.bubble.set id b }

end NetState

variable (net : GarnetNetwork)

/-! ## The next router -/

/-- `sense_inc` is reset at the two ends of the sweep. -/
def turn_sense (mesh_row curr : ℤ) (sense_inc : Bool) : Bool :=
  let sense_inc := if curr = mesh_row * mesh_row - mesh_row then false else sense_inc
  if curr = 0 then true else sense_inc

/-- The number `move_next_router` computes. The numbers are `int`s, and `/` and `%`
truncate. -/
def next_router_id (mesh_row curr : ℤ) (sense_inc : Bool) : ℤ :=
  let row_parity := (curr.tdiv mesh_row).tmod 2
  let col := curr.tmod mesh_row
  if sense_inc then
    if row_parity = 0 then
      if col = mesh_row - 1 then curr + mesh_row else curr + 1
    else if row_parity = 1 then
      if col = 0 then curr + mesh_row else curr - 1
    else -1
  else
    if row_parity = 0 then
      if col = 0 then curr - mesh_row else curr - 1
    else if row_parity = 1 then
      if col = mesh_row - 1 then curr - mesh_row else curr + 1
    else -1

/-- `move_next_router` for a bubble with the given `sense_inc`; also returns the new value of
`sense_inc`. -/
def move_next_router (curr_router_id : ℕ) (sense_inc : Bool) : Except Fault (ℕ × Bool) := do
  let sense_inc := turn_sense net.m_num_rows curr_router_id sense_inc
  let next := next_router_id net.m_num_rows curr_router_id sense_inc
  assert (0 ≤ next) .next_router
  assert (next < net.num_routers) .next_router
  pure (next.toNat, sense_inc)

def move_next_router_cbs (curr_router_id bubble_id : ℕ) : Except Fault ℕ := do
  let mesh_row := net.m_num_rows
  let curr : ℤ := curr_router_id
  let id : ℤ := bubble_id
  let next_router_id : ℤ :=
    if id ≤ 2 * mesh_row - 1 then
      if curr.tdiv mesh_row = mesh_row - 1 then curr.tmod mesh_row else curr + mesh_row
    else if 2 * mesh_row ≤ id ∧ id ≤ 4 * mesh_row - 1 then
      if curr.tmod mesh_row = mesh_row - 1 then curr - mesh_row + 1 else curr + 1
    else -1
  assert (0 ≤ next_router_id) .next_router
  assert (next_router_id < net.num_routers) .next_router
  pure next_router_id.toNat

/-! ## Reserving and releasing a virtual channel -/

/-- The search for the output unit of the upstream router that leads to `router_id`. The
source runs past the end of the vector if there is none. -/
def upstream_op (src_router : ℤ) (router_id : ℕ) : Except Fault ℕ :=
  if 0 ≤ src_router ∧ src_router < net.num_routers then
    match (net.m_output_unit src_router.toNat).find? (fun q => q.m_dest_router = (router_id : ℤ)) with
    | some q => pure q.m_out_link
    | none => throw .no_upstream
  else
    throw .no_upstream

/-- `get_src_router` of an input port. -/
def get_src_router (r inport : ℕ) : ℤ :=
  match (net.m_input_unit r)[inport]? with
  | some p => p.m_src_router
  | none => -1

/-- Take virtual channel 0 away from the output unit of link `up` and mark it as used in the
input unit of link `l`. -/
def reserve (s : NetState) (up l : ℕ) : Except Fault NetState := do
  let s ← OutputUnit.decrement_credit s up 0
  pure (set_vc_active (OutputUnit.set_vc_state s .ACTIVE_ up 0) l 0)

/-- Give virtual channel 0 back. -/
def release (s : NetState) (up l : ℕ) : Except Fault NetState := do
  let s ← OutputUnit.increment_credit s up 0
  pure (set_vc_idle (OutputUnit.set_vc_state s .IDLE_ up 0) l 0)

/-! ## Initialisation -/

/-- Put bubble `k` into input port `inport` of its router `r`. -/
def place_bubble (s : NetState) (k r inport : ℕ) (b : brownian_bubble) :
    Except Fault NetState := do
  let dirn := net.getInportDirection r inport
  let up ← upstream_op net (get_src_router net r inport) r
  let s ← reserve s up (net.inLink r inport)
  assert (inport = m_inports_dirn2idx net r dirn) .bubble_inport
  pure (s.setBubble k { b with
    inport_dirn := dirn
    last_inport_dirn := .Unknown
    inport_id := inport
    last_inport_id := -1
    last_intra_movement_cycle := s.now
    last_inter_movement_cycle := s.now })

/-- The `try_again` loop: the first outcome of `random()` that is not the router of an
earlier bubble. -/
def pick_router (taken : List ℕ) : List ℕ → Except Fault (ℕ × List ℕ)
  | [] => throw .random_exhausted
  | x :: rest =>
    let r := x % net.num_routers
    if r ∈ taken then pick_router taken rest else pure (r, rest)

/-- The router of bubble `k`. -/
def initial_router (s : NetState) (k : ℕ) : Except Fault (ℕ × NetState) := do
  assert (0 < net.num_routers) .division_by_zero
  if net.rand_bb = 1 then do
    let (r, rng) ← pick_router net ((s.bubble.take k).map brownian_bubble.router_id) s.rng
    pure (r, { s with rng := rng })
  else
    pure (k % net.num_routers, s)

/-- The body of the loop of `init_brownian_bubbles`. -/
def init_bubble (s : NetState) (k : ℕ) : Except Fault NetState := do
  let b ← s.getBubble k
  let (r, s) ← initial_router net s k
  let b := { b with bubble_id := k, router_id := r, sense_inc := true }
  match (List.range (net.num_inports r)).find? (fun i => net.getInportDirection r i ≠ .Local) with
  | some inport => place_bubble net s k r inport b
  | none => pure (s.setBubble k b)

def init_brownian_bubbles (s : NetState) : Except Fault NetState := do
  let s ← (List.range net.m_num_bubble).foldlM (init_bubble net) s
  pure { s with m_bubble_init := true }

/-- `set_bubble_inport` for bubble `k`, whose router is already set. -/
def set_bubble_inport (s : NetState) (k : ℕ) (dirn_ : PortDirection) (b : brownian_bubble) :
    Except Fault NetState :=
  match (List.range (net.num_inports b.router_id)).find?
      (fun i => net.getInportDirection b.router_id i = dirn_) with
  | some inport => place_bubble net s k b.router_id inport b
  | none => pure (s.setBubble k b)

/-- The router and the direction that `init_brownian_bubbles_cbs` gives to bubble `k`. -/
def cbs_start (k : ℕ) : Option (ℕ × PortDirection) :=
  let rows := net.m_num_rows
  let id : ℤ := k
  if id ≤ rows - 1 then some (k, .South)
  else if rows ≤ id ∧ id ≤ 2 * rows - 1 then some ((id - rows).toNat, .North)
  else if 2 * rows ≤ id ∧ id ≤ 3 * rows - 1 then some (((id.tmod rows) * rows).toNat, .West)
  else if 3 * rows ≤ id ∧ id ≤ 4 * rows - 1 then some (((id.tmod rows) * rows).toNat, .East)
  else none

/-- The body of the loop of `init_brownian_bubbles_cbs`. -/
def init_bubble_cbs (s : NetState) (k : ℕ) : Except Fault NetState := do
  let b ← s.getBubble k
  let b := { b with bubble_id := k }
  match cbs_start net k with
  | some (r, dirn_) => set_bubble_inport net s k dirn_ { b with router_id := r }
  | none => pure (s.setBubble k b)

def init_brownian_bubbles_cbs (s : NetState) : Except Fault NetState := do
  -- an `int` and a `uint32_t` are compared as `uint32_t`
  assert ((net.m_num_bubble : ℤ) = (4 * net.m_num_rows) % 2 ^ 32) .bubble_count
  let s ← (List.range net.m_num_bubble).foldlM (init_bubble_cbs net) s
  pure { s with m_bubble_init := true }

/-! ## Moving within a router -/

variable [StdHeap]

/-- The bubble after a move to input port `inport` of router `r`. -/
def brownian_bubble.moveTo (b : brownian_bubble) (r inport : ℕ) : brownian_bubble :=
  { b with
    last_inport_id := b.inport_id
    last_inport_dirn := b.inport_dirn
    router_id := r
    inport_id := inport
    inport_dirn := net.getInportDirection r inport }

/-- Change places with the free virtual channel 0 of input port `inport` of router `r`, and
with it the reservation upstream. -/
def exchange_bubble (s : NetState) (r inport up : ℕ) (b : brownian_bubble) (orig_up : ℕ) :
    Except Fault NetState := do
  let s ← reserve s up (net.inLink r inport)
  release s orig_up (net.inLink b.router_id b.inport_id)

/-- The wakeup `move_intra_bubble` schedules after an exchange. -/
def schedule_next_period (s : NetState) (r : ℕ) : Except Fault NetState :=
  let period := net.m_inter_bubble_period
  if period < s.now then do
    assert (period ≠ 0) .division_by_zero
    pure (s.schedule (.router r) (s.now + (period - s.now % period)))
  else
    pure s

/-- Is another bubble in this input port? -/
def other_bubble (s : NetState) (id r inport : ℕ) : Bool :=
  s.bubble.any (fun bb => id ≠ bb.bubble_id && bb.router_id = r && bb.inport_id = inport)

/-- `move_intra_bubble` once it has picked input port `inport`: has the bubble moved? -/
def intra_move (s : NetState) (id inport : ℕ) (b : brownian_bubble) :
    Except Fault (Bool × NetState) := do
  let r := b.router_id
  let l := net.inLink r inport
  let up ← upstream_op net (get_src_router net r inport) r
  let orig_up ← upstream_op net (get_src_router net r b.inport_id) r
  let empty := vc_isEmpty s l 0
  let idle := is_vc_idle s up 0
  let b' := { b.moveTo net r inport with last_intra_movement_cycle := s.now }
  if empty && !idle then
    pure (false, s)
  else if empty && idle then do
    let s ← exchange_bubble net s r inport up b orig_up
    assert (b'.inport_dirn ≠ .Local) .bubble_local
    let s ← schedule_next_period net (s.setBubble id b') r
    pure (true, s)
  else if !empty && !idle then do
    let (t_flit, s) ← getTopFlit s l 0
    let s := insertFlit s (net.inLink r b.inport_id) 0 t_flit
    assert (b'.inport_dirn ≠ .Local) .bubble_local
    pure (true, s.setBubble id b')
  else
    throw .bubble_case

/-- The body of the loop of `move_intra_bubble`. -/
def intra_try (s : NetState) (id : ℕ) (b : brownian_bubble) : Except Fault (Bool × NetState) := do
  let (x, s) ← s.random
  let inport := x % net.num_inports b.router_id
  if net.getInportDirection b.router_id inport = .Local then
    pure (false, s)
  else if other_bubble s id b.router_id inport then
    pure (false, s)
  else
    intra_move net s id inport b

/-- Try until a move succeeds, at most `itr` times. -/
def tryMoves (attempt : NetState → Except Fault (Bool × NetState)) :
    ℕ → NetState → Except Fault (Bool × NetState)
  | 0, s => pure (false, s)
  | itr + 1, s => do
      let (moved, s) ← attempt s
      if moved then pure (true, s) else tryMoves attempt itr s

def move_intra_bubble (s : NetState) (id : ℕ) : Except Fault (Bool × NetState) := do
  let b ← s.getBubble id
  assert (b.last_intra_movement_cycle ≤ s.now) .bubble_cycle
  if net.m_intra_bubble_period ≤ s.now - b.last_intra_movement_cycle then
    tryMoves (fun s => intra_try net s id b) (net.num_inports b.router_id) s
  else
    pure (false, s)

/-! ## Moving to the next router -/

/-- Case III: change places with the packet in virtual channel 0 of the input port with link
`l`. The packet is routed afresh from the router it comes to. -/
def swap_packet (s : NetState) (l : ℕ) (b : brownian_bubble) : Except Fault NetState := do
  let (t_flit, s) ← getTopFlit s l 0
  let (outport, s) ← outportCompute net s b.router_id t_flit.m_route
  assert (outport < net.num_outports b.router_id) .outport_range
  let t_flit := ((t_flit.set_outport outport).set_outport_dirn
    (net.getOutportDirection b.router_id outport)).set_time (s.now + 2)
  pure (insertFlit s (net.inLink b.router_id b.inport_id) 0 t_flit)

/-- `move_inter_bubble` and `move_inter_bubble_cbs` once they have picked input port `inport`
of the next router: has the bubble moved? -/
def inter_move (s : NetState) (id nxt_router_id inport : ℕ) (b : brownian_bubble) :
    Except Fault (Bool × NetState) := do
  let l := net.inLink nxt_router_id inport
  let up ← upstream_op net (get_src_router net nxt_router_id inport) nxt_router_id
  let orig_up ← upstream_op net (get_src_router net b.router_id b.inport_id) b.router_id
  let empty := vc_isEmpty s l 0
  let idle := is_vc_idle s up 0
  let b' := { b.moveTo net nxt_router_id inport with last_inter_movement_cycle := s.now }
  if empty && idle then do
    let s ← exchange_bubble net s nxt_router_id inport up b orig_up
    let s := (s.schedule (.router b.router_id) (s.now + 2)).schedule (.router nxt_router_id)
      (s.now + 2)
    assert (b'.inport_dirn ≠ .Local) .bubble_local
    pure (true, s.setBubble id b')
  else if empty && !idle then
    pure (false, s)
  else if !empty && !idle then do
    let t_flit ← peekTopFlit s l 0
    if t_flit.m_outport_dirn = .Local then
      pure (false, s)
    else do
      let s ← swap_packet net s l b
      let s := (s.schedule (.router b.router_id) (s.now + 2)).schedule (.router nxt_router_id)
        (s.now + 2)
      assert (b'.inport_dirn ≠ .Local) .bubble_local
      pure (true, s.setBubble id b')
  else
    pure (false, s)

/-- The body of the loop of `move_inter_bubble`. -/
def inter_try (s : NetState) (id nxt_router_id : ℕ) (b : brownian_bubble) :
    Except Fault (Bool × NetState) := do
  let (x, s) ← s.random
  let inport := x % net.num_inports nxt_router_id
  if net.getInportDirection nxt_router_id inport = .Local then
    pure (false, s)
  else
    inter_move net s id nxt_router_id inport b

def move_inter_bubble (s : NetState) (id : ℕ) : Except Fault (Bool × NetState) := do
  let b ← s.getBubble id
  assert (b.last_inter_movement_cycle ≤ s.now) .bubble_cycle
  if net.m_inter_bubble_period ≤ s.now - b.last_inter_movement_cycle then do
    let (nxt_router_id, sense_inc) ← move_next_router net b.router_id b.sense_inc
    let b := { b with sense_inc := sense_inc }
    tryMoves (fun s => inter_try net s id nxt_router_id b) (net.num_inports nxt_router_id)
      (s.setBubble id b)
  else
    pure (false, s)

/-- The direction of the input port `move_inter_bubble_cbs` looks for. -/
def cbs_dirn (bubble_id : ℕ) : Option PortDirection :=
  let mesh_row := net.m_num_rows
  let id : ℤ := bubble_id
  if id ≤ mesh_row - 1 then some .South
  else if mesh_row ≤ id ∧ id ≤ 2 * mesh_row - 1 then some .North
  else if 2 * mesh_row ≤ id ∧ id ≤ 3 * mesh_row - 1 then some .East
  else if 3 * mesh_row ≤ id ∧ id ≤ 4 * mesh_row - 1 then some .West
  else none

/-- The search loop of `move_inter_bubble_cbs`: the first input port with the direction, or
the last one if there is none. -/
def cbs_inport (r bubble_id : ℕ) : ℕ :=
  ((List.range (net.num_inports r)).find? (fun i =>
    some (net.getInportDirection r i) = cbs_dirn net bubble_id)).getD (net.num_inports r - 1)

def move_inter_bubble_cbs (s : NetState) (id : ℕ) : Except Fault (Bool × NetState) := do
  let b ← s.getBubble id
  assert (b.last_inter_movement_cycle ≤ s.now) .bubble_cycle
  if net.m_inter_bubble_period ≤ s.now - b.last_inter_movement_cycle then do
    let nxt_router_id ← move_next_router_cbs net b.router_id id
    tryMoves (fun s => inter_move net s id nxt_router_id (cbs_inport net nxt_router_id id) b)
      (net.num_inports nxt_router_id) s
  else
    pure (false, s)

end Bindu.Garnet
