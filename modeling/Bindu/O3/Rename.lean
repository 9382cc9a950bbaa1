/-
The rename stage of the out-of-order CPU: the rename map, the free list and the history
buffer of a thread.

`renameDestRegs` takes a physical register from the free list for every destination and pushes
the change to the front of the history buffer. `doSquash` undoes the changes of squashed
instructions from the front, `removeFromHistory` drops those of committed ones from the back.
At the end of a squash the CPU may switch between renaming whole vector registers and renaming
their elements.

The machine is a CPU with one thread; the map of the commit stage and the contents of the
registers are left out. Architectural registers are given with their flattened index.

Source: `cpu/o3/rename_impl.hh`, `cpu/o3/rename_map.hh`, `cpu/o3/rename_map.cc`,
`cpu/o3/free_list.hh`, `FullO3CPU::FullO3CPU` and `FullO3CPU::switchRenameMode`,
`cpu/o3/regfile.cc`.
-/
import Bindu.Lib.Fallible

namespace Bindu.O3

inductive RegClass
  | IntReg | FloatReg | VecReg | VecElem | VecPredReg | CCReg | MiscReg
deriving DecidableEq

inductive VecMode
  | Full | Elem
deriving DecidableEq

/-- An architectural register: its class and its flattened index. -/
structure RegId where
  regClass : RegClass
  flatIndex : ℕ
deriving DecidableEq

/-- A pointer to a physical register: null, or the register of a class with some index. The
index of a vector element is counted through all registers. -/
inductive PhysRegIdPtr
  | null
  | reg (regClass : RegClass) (index : ℕ)
deriving DecidableEq

def PhysRegIdPtr.classValue : PhysRegIdPtr → Option RegClass
  | .null => none
  | .reg c _ => some c

/-- The constants of the instruction set and the sizes of the register file. -/
structure Machine where
  NumIntRegs : ℕ
  NumFloatRegs : ℕ
  NumVecRegs : ℕ
  NumVecElemPerVecReg : ℕ
  NumVecPredRegs : ℕ
  NumCCRegs : ℕ
  ZeroReg : ℕ
  fpZeroReg : ℕ
  isAlpha : Bool
  numPhysIntRegs : ℕ
  numPhysFloatRegs : ℕ
  numPhysVecRegs : ℕ
  numPhysVecPredRegs : ℕ
  numPhysCCRegs : ℕ
  -- the assertions of the CPU's constructor
  int_le : NumIntRegs ≤ numPhysIntRegs
  float_le : NumFloatRegs ≤ numPhysFloatRegs
  vec_le : NumVecRegs ≤ numPhysVecRegs
  vecPred_le : NumVecPredRegs ≤ numPhysVecPredRegs
  cc_le : NumCCRegs ≤ numPhysCCRegs

namespace Machine

variable (m : Machine)

/-- The size of the rename map of a class. -/
def numRegs : RegClass → ℕ
  | .IntReg => m.NumIntRegs
  | .FloatReg => m.NumFloatRegs
  | .VecReg => m.NumVecRegs
  | .VecElem => m.NumVecRegs * m.NumVecElemPerVecReg
  | .VecPredReg => m.NumVecPredRegs
  | .CCReg => m.NumCCRegs
  | .MiscReg => 0

/-- The number of physical registers of a class that is renamed. -/
def numPhysRegs : RegClass → ℕ
  | .IntReg => m.numPhysIntRegs
  | .FloatReg => m.numPhysFloatRegs
  | .VecReg => m.numPhysVecRegs
  | .VecElem => m.numPhysVecRegs * m.NumVecElemPerVecReg
  | .VecPredReg => m.numPhysVecPredRegs
  | .CCReg => m.numPhysCCRegs
  | .MiscReg => 0

theorem numRegs_le (c : RegClass) : m.numRegs c ≤ m.numPhysRegs c := by
  cases c with
  | IntReg => exact m.int_le
  | FloatReg => exact m.float_le
  | VecReg => exact m.vec_le
  | VecElem => exact Nat.mul_le_mul_right _ m.vec_le
  | VecPredReg => exact m.vecPred_le
  | CCReg => exact m.cc_le
  | MiscReg => exact le_rfl

/-- The registers of a class with an index from `first` up to `last`. -/
def regIds (c : RegClass) (first last : ℕ) : List PhysRegIdPtr :=
  (List.range' first (last - first)).map (.reg c)

/-- `PhysRegFile::getRegIds`. -/
def getRegIds (c : RegClass) : List PhysRegIdPtr := regIds c 0 (m.numPhysRegs c)

/-- The architectural index that `SimpleRenameMap::rename` does not rename. All maps have it
as an integer register. -/
def zeroReg : RegClass → RegId
  | .IntReg => ⟨.IntReg, m.ZeroReg⟩
  | .FloatReg => ⟨.IntReg, m.fpZeroReg⟩
  | _ => ⟨.IntReg, 2 ^ 16 - 1⟩

def isZeroReg : PhysRegIdPtr → Bool
  | .null => false
  | .reg c i => (c = .IntReg ∧ i = m.ZeroReg) || (m.isAlpha && (c = .FloatReg ∧ i = m.ZeroReg))

end Machine

structure RenameHistory where
  instSeqNum : ℕ
  archReg : RegId
  newPhysReg : PhysRegIdPtr
  prevPhysReg : PhysRegIdPtr
deriving DecidableEq

/-- Free list, rename map and history buffer. The newest entry of the history stands first. -/
structure RenameState where
  freeList : RegClass → List PhysRegIdPtr
  renameMap : RegClass → List PhysRegIdPtr
  vecMode : VecMode
  historyBuffer : List RenameHistory

namespace RenameState

variable (s : RenameState) (c : RegClass)

/-- The state with another free list for one class. -/
def setFree (l : List PhysRegIdPtr) : RenameState :=
  { s with freeList := Function.update s.freeList c l }

/-- The state with another map for one class. -/
def setMap (l : List PhysRegIdPtr) : RenameState :=
  { s with renameMap := Function.update s.renameMap c l }

end RenameState

/-- Where the stage stops: an assertion or a panic fails, or a null pointer or an index out of
bounds is used. -/
inductive Fault
  | no_free_reg
  | not_zero_reg
  | vec_mode
  | wrong_class
  | misc_changed
  | unexpected_class
  | index
  | null_pointer
  | already_tracking
  | lost_registers
deriving DecidableEq

section Functions

variable (m : Machine)

/-! ## Rename map and free list -/

/-- `SimpleRenameMap::rename`, with `SimpleFreeList::getReg`. -/
def simpleRename (arch_reg : RegId) (s : RenameState) :
    Except Fault ((PhysRegIdPtr × PhysRegIdPtr) × RenameState) :=
  match (s.renameMap arch_reg.regClass)[arch_reg.flatIndex]? with
  | none => throw .index
  | some prev_reg =>
    if arch_reg ≠ m.zeroReg arch_reg.regClass then
      match s.freeList arch_reg.regClass with
      | [] => throw .no_free_reg
      | renamed_reg :: rest =>
        return ((renamed_reg, prev_reg), (s.setFree arch_reg.regClass rest).setMap arch_reg.regClass
            ((s.renameMap arch_reg.regClass).set arch_reg.flatIndex renamed_reg))
    else if m.isZeroReg prev_reg then
      return ((prev_reg, prev_reg), s)
    else
      throw .not_zero_reg

/-- `UnifiedRenameMap::rename`. -/
def rename (arch_reg : RegId) (s : RenameState) :
    Except Fault ((PhysRegIdPtr × PhysRegIdPtr) × RenameState) :=
  match arch_reg.regClass with
  | .VecReg => if s.vecMode = .Full then simpleRename m arch_reg s else throw .vec_mode
  | .VecElem => if s.vecMode = .Elem then simpleRename m arch_reg s else throw .vec_mode
  | .MiscReg =>
    return ((.reg .MiscReg arch_reg.flatIndex, .reg .MiscReg arch_reg.flatIndex), s)
  | _ => simpleRename m arch_reg s

/-- `UnifiedRenameMap::setEntry`. -/
def setEntry (arch_reg : RegId) (phys_reg : PhysRegIdPtr) (s : RenameState) :
    Except Fault RenameState :=
  if arch_reg.regClass = .MiscReg then
    if phys_reg = .reg .MiscReg arch_reg.flatIndex then return s else throw .misc_changed
  else if phys_reg.classValue ≠ some arch_reg.regClass then
    throw .wrong_class
  else if (arch_reg.regClass = .VecReg ∧ s.vecMode ≠ .Full)
      ∨ (arch_reg.regClass = .VecElem ∧ s.vecMode ≠ .Elem) then
    throw .vec_mode
  else if (s.renameMap arch_reg.regClass).length ≤ arch_reg.flatIndex then
    throw .index
  else
    return s.setMap arch_reg.regClass
      ((s.renameMap arch_reg.regClass).set arch_reg.flatIndex phys_reg)

/-- `UnifiedFreeList::addReg`. -/
def addReg (freed_reg : PhysRegIdPtr) (s : RenameState) : Except Fault RenameState :=
  match freed_reg with
  | .null => throw .null_pointer
  | .reg c i =>
    if c = .MiscReg then
      throw .unexpected_class
    else
      return s.setFree c (s.freeList c ++ [.reg c i])

/-- `UnifiedRenameMap::canRename` for the destinations of an instruction. -/
def canRename (dests : List RegId) (s : RenameState) : Prop :=
  ∀ c, c ≠ .MiscReg → dests.countP (fun d => d.regClass = c) ≤ (s.freeList c).length

/-! ## The stage -/

/-- One turn of the loop of `renameDestRegs`. -/
def renameDestReg (seqNum : ℕ) (s : RenameState) (flat_dest_regid : RegId) :
    Except Fault RenameState := do
  let (rename_result, s) ← rename m flat_dest_regid s
  let hb_entry := ⟨seqNum, flat_dest_regid, rename_result.1, rename_result.2⟩
  return { s with historyBuffer := hb_entry :: s.historyBuffer }

def renameDestRegs (seqNum : ℕ) (dests : List RegId) (s : RenameState) :
    Except Fault RenameState :=
  dests.foldlM (renameDestReg m seqNum) s

/-- The body of the loop of `doSquash` for the entry `hb_it`, which stands first. -/
def undoEntry (hb_it : RenameHistory) (rest : List RenameHistory) (s : RenameState) :
    Except Fault RenameState := do
  if hb_it.newPhysReg ≠ hb_it.prevPhysReg then
    let s ← setEntry hb_it.archReg hb_it.prevPhysReg s
    let s ← addReg hb_it.newPhysReg s
    return { s with historyBuffer := rest }
  else
    return { s with historyBuffer := rest }

/-- The loop of `doSquash` over the history `hb`. -/
def squashLoop (squashed_seq_num : ℕ) : List RenameHistory → RenameState → Except Fault RenameState
  | [], s => return s
  | hb_it :: rest, s =>
    if hb_it.instSeqNum > squashed_seq_num then do
      let s ← undoEntry hb_it rest s
      squashLoop squashed_seq_num rest s
    else
      return s

/-- `PhysRegFile::getRegElemIds`. -/
def getRegElemIds : PhysRegIdPtr → Except Fault (List PhysRegIdPtr)
  | .reg .VecReg idx =>
    return Machine.regIds .VecElem (idx * m.NumVecElemPerVecReg) ((idx + 1) * m.NumVecElemPerVecReg)
  | .null => throw .null_pointer
  | _ => throw .wrong_class

/-- `UnifiedRenameMap::switchMode`. On the way to elements every entry of the map of elements
is set. On the way back only the contents of registers are moved. -/
def switchMode (newVecMode : VecMode) (s : RenameState) : Except Fault RenameState := do
  if newVecMode = .Elem ∧ s.vecMode = .Full then
    let elems ← (s.renameMap .VecReg).mapM (getRegElemIds m)
    return { s.setMap .VecElem elems.flatten with vecMode := .Elem }
  else if newVecMode = .Full ∧ s.vecMode = .Elem then
    return { s with vecMode := .Full }
  else
    return s

/-- `UnifiedRenameMap::switchFreeList`. -/
def switchFreeList (s : RenameState) : Except Fault RenameState :=
  match s.vecMode with
  | .Elem =>
    if s.freeList .VecElem ≠ [] then
      throw .already_tracking
    else if (s.freeList .VecReg).length ≠ m.numPhysVecRegs - m.NumVecRegs then
      throw .lost_registers
    else do
      let elems ← (s.freeList .VecReg).mapM (getRegElemIds m)
      return (s.setFree .VecElem (s.freeList .VecElem ++ elems.flatten)).setFree .VecReg []
  | .Full =>
    if s.freeList .VecReg ≠ [] then
      throw .already_tracking
    else if (s.freeList .VecElem).length
        ≠ m.numPhysVecRegs * m.NumVecElemPerVecReg - m.NumFloatRegs then
      throw .lost_registers
    else
      return (s.setFree .VecReg (s.freeList .VecReg
        ++ Machine.regIds .VecReg m.NumVecRegs m.numPhysVecRegs)).setFree .VecElem []

/-- `FullO3CPU::switchRenameMode`, where `new_mode` is the mode of the thread's program
counter. -/
def switchRenameMode (new_mode : VecMode) (s : RenameState) : Except Fault RenameState :=
  if new_mode ≠ s.vecMode then do
    let s ← switchMode m new_mode s
    switchFreeList m s
  else
    return s

def doSquash (squashed_seq_num : ℕ) (new_mode : VecMode) (s : RenameState) :
    Except Fault RenameState := do
  let s ← squashLoop squashed_seq_num s.historyBuffer s
  switchRenameMode m new_mode s

/-- The body of the loop of `removeFromHistory` for the entry `hb_it`, which stands last. -/
def retireEntry (hb_it : RenameHistory) (front : List RenameHistory) (s : RenameState) :
    Except Fault RenameState := do
  if hb_it.newPhysReg ≠ hb_it.prevPhysReg then
    let s ← addReg hb_it.prevPhysReg s
    return { s with historyBuffer := front }
  else
    return { s with historyBuffer := front }

/-- The loop of `removeFromHistory` over the history from its end. -/
def commitLoop (inst_seq_num : ℕ) : List RenameHistory → RenameState → Except Fault RenameState
  | [], s => return s
  | hb_it :: rest, s =>
    if hb_it.instSeqNum ≤ inst_seq_num then do
      let s ← retireEntry hb_it rest.reverse s
      commitLoop inst_seq_num rest s
    else
      return s

def removeFromHistory (inst_seq_num : ℕ) (s : RenameState) : Except Fault RenameState :=
  match s.historyBuffer.getLast? with
  | none => return s
  | some hb_it =>
    if hb_it.instSeqNum > inst_seq_num then
      return s
    else
      commitLoop inst_seq_num s.historyBuffer.reverse s

/-- The classes that are renamed: of the two vector classes only the one of the mode is in
use. -/
def Active (mode : VecMode) (c : RegClass) : Prop :=
  c ≠ .MiscReg ∧ (c = .VecReg → mode = .Full) ∧ (c = .VecElem → mode = .Elem)

instance (mode : VecMode) (c : RegClass) : Decidable (Active mode c) :=
  inferInstanceAs (Decidable (_ ∧ _))

/-- The state after the constructor of the CPU: each architectural register of the classes in
use has the next free physical register; the pointers of the others are null. -/
def initial (mode : VecMode) : RenameState where
  freeList c := if Active mode c then Machine.regIds c (m.numRegs c) (m.numPhysRegs c) else []
  renameMap c :=
    if Active mode c then Machine.regIds c 0 (m.numRegs c) else List.replicate (m.numRegs c) .null
  vecMode := mode
  historyBuffer := []

end Functions

end Bindu.O3
