/-
The stack distance calculator.

Every access of an address gets the next index. A binary tree of partial sums over the indices
counts which of them are the last access of an address that is still in the stack; the
distance of an address is the number of those with a greater index. The tree grows by a layer
when the number of indices passes a power of two, and nodes below which everything is gone are
deleted on the way.

`tree[layer][index]` is a map of maps, and a pointer to a node is its place there: every node
is created once under its place. A place without an entry and one with a null pointer, which
`operator[]` puts there, are both `none`, and following a pointer to such a place is a fault.
The recursion of `updateSum` and `getSum` over parents is given as many turns as there are
layers. The counters are natural numbers: none reaches 2 ^ 64 before the calculator was
called that often. `printStack` only prints and is left out.

Source: `mem/stack_dist_calc.cc`, `mem/stack_dist_calc.hh`, `base/intmath.hh`.
-/
import Bindu.Lib.Fallible

namespace Bindu.Mem

namespace StackDist

/-- The place of a node: its layer and its index there. -/
abbrev NodePtr := ℕ × ℕ

structure Node where
  sumLeft : ℕ := 0
  sumRight : ℕ := 0
  discardLeft : Bool := false
  discardRight : Bool := false
  nodeIndex : ℕ := 0
  parent : Option NodePtr := none
  isLeftNode : Bool := true
  isMarked : Bool := false
deriving DecidableEq

/-- Where the calculator stops. -/
inductive Fault
  | null_pointer
  | shift
  | turns
  | error_in_sum
  | sanity_check
  | expected_distance
deriving DecidableEq

/-- A distance; `none` is `Infinity`. -/
abbrev Distance := Option ℕ

/-- `stack` is the list for verification, with the address that was pushed last at the
front. -/
structure StackDistCalc (Addr : Type) where
  index : ℕ
  tree : ℕ → ℕ → Option Node
  treeDepth : ℕ
  aiMap : Addr → Option ℕ
  nextIndex : ℕ → ℕ
  stack : List Addr
  verifyStack : Bool

namespace StackDistCalc

variable {Addr : Type}

/-- The constructor: an empty layer of leaves and one with the root. -/
def new (verify_stack : Bool) : StackDistCalc Addr where
  index := 0
  tree layer i := if layer = 1 ∧ i = 0 then some {} else none
  treeDepth := 1
  aiMap _ := none
  nextIndex layer := if layer = 1 then 1 else 0
  stack := []
  verifyStack := verify_stack

variable (s : StackDistCalc Addr)

/-- `1 << i`, an `int`. -/
def shiftLeftOne (i : ℕ) : Except Fault ℕ := if i < 31 then return 2 ^ i else throw .shift

/-- What a pointer points to. -/
def deref (p : NodePtr) : Except Fault Node :=
  match s.tree p.1 p.2 with
  | some node => return node
  | none => throw .null_pointer

/-- The map at a place: a node, or nothing. -/
def setNode (p : NodePtr) (node : Option Node) : StackDistCalc Addr :=
  { s with tree := Function.update s.tree p.1 (Function.update (s.tree p.1) p.2 node) }

def setNextIndex (layer i : ℕ) : StackDistCalc Addr :=
  { s with nextIndex := Function.update s.nextIndex layer i }

/-- The checks of `updateSum` when the stack is verified. -/
def checkSums (level : ℕ) (node : Node) : Except Fault Unit :=
  if s.verifyStack then do
    let bound ← shiftLeftOne (level - 1)
    if bound < node.sumLeft then throw .error_in_sum
    else if bound < node.sumRight then throw .error_in_sum
    else return ()
  else
    return ()

/-- The node with the sum from below and the discard flag of that side. -/
def updatedNode (node : Node) (from_left : Bool) (sum_from_below : ℕ) (discard_node : Bool) :
    Node :=
  if from_left then
    { node with
      sumLeft := sum_from_below
      discardLeft := node.discardLeft || (discard_node && (sum_from_below == 0)) }
  else
    { node with
      sumRight := sum_from_below
      discardRight := node.discardRight || (discard_node && (sum_from_below == 0)) }

/-- The node is not needed any more. -/
def deletes (node : Node) (sum_from_below : ℕ) (discard_node : Bool) : Bool :=
  node.discardLeft && node.discardRight && discard_node && node.parent.isSome
    && (sum_from_below == 0)

def updateSum (turns : ℕ) (p : NodePtr) (from_left : Bool) (sum_from_below level stack_dist : ℕ)
    (discard_node : Bool) (s : StackDistCalc Addr) : Except Fault (ℕ × StackDistCalc Addr) :=
  match turns with
  | 0 => throw .turns
  | turns + 1 => do
      let level := level + 1
      let node ← s.deref p
      s.checkSums level node
      let stack_dist := if from_left then stack_dist + node.sumRight else stack_dist
      let node := updatedNode node from_left sum_from_below discard_node
      let discard_node := deletes node sum_from_below discard_node
      let s := if discard_node then s.setNode (level, node.nodeIndex) none
        else s.setNode p (some node)
      match node.parent with
      | none => return (stack_dist, s)
      | some q =>
        updateSum turns q node.isLeftNode (node.sumLeft + node.sumRight) level stack_dist
          discard_node s

/-- The parent of a leaf, which is used without a check. -/
def parentOf (node : Node) : Except Fault NodePtr :=
  match node.parent with
  | some q => return q
  | none => throw .null_pointer

/-- Returns `none`, which stands for `Infinity`, for a new leaf. -/
def updateSumsLeavesToRoot (p : NodePtr) (is_new_leaf : Bool) :
    Except Fault (Distance × StackDistCalc Addr) := do
  let node ← s.deref p
  let q ← parentOf node
  if is_new_leaf then
    let s := s.setNode p (some { node with sumLeft := 1 })
    let (_, s) ← updateSum s.treeDepth q node.isLeftNode 1 0 0 false s
    return (none, s)
  else
    let s := s.setNode p (some { node with sumLeft := 0 })
    let (stack_dist, s) ← updateSum s.treeDepth q node.isLeftNode 0 0 0 true s
    return (some stack_dist, s)

def getSum (turns : ℕ) (p : NodePtr) (from_left : Bool) (stack_dist : ℕ) : Except Fault ℕ :=
  match turns with
  | 0 => throw .turns
  | turns + 1 => do
      let node ← s.deref p
      let stack_dist := if from_left then stack_dist + node.sumRight else stack_dist
      match node.parent with
      | none => return stack_dist
      | some q => getSum turns q node.isLeftNode stack_dist

def getSumsLeavesToRoot (p : NodePtr) : Except Fault ℕ := do
  let node ← s.deref p
  let q ← parentOf node
  s.getSum s.treeDepth q node.isLeftNode 0

/-- `tree[layer][i]` as a pointer: null if there is no node. -/
def pointerTo (layer i : ℕ) : Option NodePtr :=
  if (s.tree layer i).isSome then some (layer, i) else none

/-- A new intermediate node at layer `i`. -/
def addNode (i : ℕ) : StackDistCalc Addr :=
  let newINode : Node :=
    { isLeftNode := s.nextIndex i % 2 == 0
      parent := s.pointerTo (i + 1) (s.nextIndex (i + 1) - 1)
      nodeIndex := s.nextIndex i }
  (s.setNextIndex i (s.nextIndex i + 1)).setNode (i, s.nextIndex i) (some newINode)

/-- The loops of `updateTree` over the layers from `i` down to 1: a node is added in the
layers that `needs` selects. -/
def addNodes (needs : ℕ → Except Fault Bool) : ℕ → StackDistCalc Addr →
    Except Fault (StackDistCalc Addr)
  | 0, s => return s
  | i + 1, s => do
      if ← needs (i + 1) then
        addNodes needs i (s.addNode (i + 1))
      else
        addNodes needs i s

def leastSigBit (n : BitVec 64) : BitVec 64 := n &&& ~~~(n - 1)

def isPowerOf2 (n : BitVec 64) : Bool := n != 0 && leastSigBit n == n

/-- The new root above the old one. -/
def addRoot : Except Fault (StackDistCalc Addr) := do
  let old ← s.deref (s.treeDepth, 0)
  let newRootNode : Node :=
    { sumLeft := old.sumRight + old.sumLeft
      discardLeft := old.discardLeft && old.discardRight }
  let s := (s.setNode (s.treeDepth, 0) (some { old with
    parent := some (s.treeDepth + 1, 0) })).setNode (s.treeDepth + 1, 0) (some newRootNode)
  return { s.setNextIndex (s.treeDepth + 1) 1 with treeDepth := s.treeDepth + 1 }

def updateTree : Except Fault (StackDistCalc Addr) :=
  if isPowerOf2 (BitVec.ofNat 64 s.index) then do
    let s ← s.addRoot
    addNodes (fun _ => return true) (s.treeDepth - 1) s
  else
    addNodes (fun i => do return s.index % (← shiftLeftOne i) == 0) (s.treeDepth - 1) s

/-- The tree is only updated for an even index. -/
def growTree : Except Fault (StackDistCalc Addr) :=
  if s.index % 2 = 0 then s.updateTree else return s

/-- The chain of parents from `p` over `n` nodes. -/
def ancestor : ℕ → NodePtr → Except Fault NodePtr
  | 0, p => return p
  | n + 1, p => do
      let node ← s.deref p
      match node.parent with
      | none => throw .sanity_check
      | some q => ancestor n q

/-- The last parent must be the root. Only called when the stack is verified. -/
def sanityCheckTree (p : NodePtr) : Except Fault Unit :=
  if s.verifyStack then do
    let node ← s.deref p
    let q ← parentOf node
    let top ← s.ancestor (s.treeDepth - 1) q
    let node ← s.deref top
    if node.parent.isSome then throw .sanity_check else return ()
  else
    return ()

variable [DecidableEq Addr]

def verifyStackDist (r_address : Addr) (update_stack : Bool) :
    Distance × StackDistCalc Addr :=
  if r_address ∈ s.stack then
    (some (s.stack.idxOf r_address),
      if update_stack then { s with stack := r_address :: s.stack.erase r_address } else s)
  else
    (none, if update_stack then { s with stack := r_address :: s.stack } else s)

/-- The check of a distance against the list, when the stack is verified. -/
def verify (r_address : Addr) (update_stack : Bool) (stack_dist : Distance) :
    Except Fault (StackDistCalc Addr) :=
  if s.verifyStack then
    if (s.verifyStackDist r_address update_stack).1 ≠ stack_dist then
      throw .expected_distance
    else
      return (s.verifyStackDist r_address update_stack).2
  else
    return s

def setAddress (r_address : Addr) (i : Option ℕ) : StackDistCalc Addr :=
  { s with aiMap := Function.update s.aiMap r_address i }

/-- The leaf of an address that was accessed before is taken out of the tree. -/
def removeLeaf (r_index : ℕ) : Except Fault ((Distance × Bool) × StackDistCalc Addr) := do
  let (stack_dist, s) ← s.updateSumsLeavesToRoot (0, r_index) false
  let leaf ← s.deref (0, r_index)
  return ((stack_dist, leaf.isMarked), s.setNode (0, r_index) none)

/-- A leaf for the current access. -/
def addLeaf : Except Fault (StackDistCalc Addr) := do
  let newLeafNode : Node :=
    { nodeIndex := s.index
      isLeftNode := s.index % 2 == 0
      parent := s.pointerTo 1 (s.nextIndex 1 - 1) }
  let s := (s.setNextIndex 0 (s.nextIndex 0 + 1)).setNode (0, s.index) (some newLeafNode)
  let (_, s) ← s.updateSumsLeavesToRoot (0, s.index) true
  return s

/-- The second half of `calcStackDistAndUpdate`: the access gets the next index. -/
def addAccess (r_address : Addr) (stack_dist : Distance) : Except Fault (StackDistCalc Addr) := do
  let s ← s.growTree
  let s ← s.addLeaf
  s.sanityCheckTree (0, s.index)
  let s ← s.verify r_address true stack_dist
  return { s with index := s.index + 1 }

def calcStackDistAndUpdate (r_address : Addr) (addNewNode : Bool) :
    Except Fault ((Distance × Bool) × StackDistCalc Addr) := do
  match s.aiMap r_address with
  | some r_index =>
    let s := s.setAddress r_address (if addNewNode then some s.index else none)
    let (result, s) ← s.removeLeaf r_index
    if addNewNode then
      let s ← s.addAccess r_address result.1
      return (result, s)
    else
      return (result, s)
  | none =>
    if addNewNode then
      let s := s.setAddress r_address (some s.index)
      let s ← s.addAccess r_address none
      return ((none, false), s)
    else
      return ((none, false), s)

def calcStackDist (r_address : Addr) (mark : Bool) :
    Except Fault ((Distance × Bool) × StackDistCalc Addr) := do
  match s.aiMap r_address with
  | some r_index =>
    let leaf ← s.deref (0, r_index)
    let s := s.setNode (0, r_index) (some { leaf with isMarked := mark })
    let stack_dist ← s.getSumsLeavesToRoot (0, r_index)
    let s ← s.verify r_address false (some stack_dist)
    return ((some stack_dist, leaf.isMarked), s)
  | none =>
    let s ← s.verify r_address false none
    return ((none, false), s)

end StackDistCalc

end StackDist

end Bindu.Mem
