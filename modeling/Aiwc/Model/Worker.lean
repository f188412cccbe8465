import Aiwc.Model.Containers

namespace AiwcModel

/-- The address-space numbers of `core/common.h`, a header that is not part of the source.
    `memoryLoad` and `memoryStore` compare with `addrSpacePrivate`, the atomic hooks with `0`. -/
structure AddressSpaces where
  addrSpacePrivate : Nat
  addrSpaceGlobal : Nat
  addrSpaceConstant : Nat
  addrSpaceLocal : Nat
  deriving DecidableEq, Repr

/-- How a run of the plugin stops: `std::raise(SIGINT)` after "Error in branching!", an
    index outside a vector, the dereference of `min_element` over an empty range, or a
    loop whose counter wraps before it reaches its bound. -/
inductive Fault where
  | branching (message : String)
  | outOfRange (index : Int)
  | emptyRange (container : String)
  | endless (loop : String)
  deriving DecidableEq, Repr

inductive Opcode where
  | load
  | store
  | br
  | other (code : Nat)
  deriving DecidableEq, Repr

structure Operand where
  isLabel : Bool
  text : String
  deriving DecidableEq, Repr

/-- What `instructionExecuted` reads of the `llvm::Instruction` and of its result: the
    opcode and its mnemonic, the operands with their printed text, the pointer operand of a
    load or store, the debug line, the printed parent block and the result's `num`. -/
structure Instruction where
  opcode : Opcode
  opcodeName : String
  operands : List Operand
  pointerAddressSpace : Nat
  pointerOperandName : String
  line : Nat
  parent : String
  resultNum : Nat
  deriving DecidableEq, Repr

def Instruction.operand (inst : Instruction) (i : Nat) : Operand := inst.operands.getD i ⟨false, ""⟩

def Instruction.isConditionalBranch (inst : Instruction) : Bool :=
  inst.opcode = .br && inst.operands.length = 3 && (inst.operand 1).isLabel && (inst.operand 2).isLabel

/-- `m_state`, the thread-local `WorkerState` of one worker thread. The containers behind
    its pointers are modelled as values; `workGroupBegin` allocates them before first use. -/
structure WorkerState where
  memoryOps : List Nat
  computeOps : UnorderedMap String Nat
  branchOps : UnorderedMap Nat (List Bool)
  instructionsBetweenBarriers : List Nat
  instructionWidth : UnorderedMap Nat Nat
  instructionsPerWorkitem : List Nat
  instructionsBetweenLoadOrStore : List Nat
  loadInstructionLabels : UnorderedMap String Nat
  storeInstructionLabels : UnorderedMap String Nat
  threadsInvoked : Nat
  instructionCount : Nat
  workitemInstructionCount : Nat
  opsBetweenLoadOrStore : Nat
  barriersHit : Nat
  constantMemoryAccessCount : Nat
  localMemoryAccessCount : Nat
  globalMemoryAccessCount : Nat
  previousInstructionIsBranch : Bool
  target1 : String
  target2 : String
  branchLoc : Nat
  deriving DecidableEq

namespace WorkerState

/-- `m_state = {NULL}`: static storage, so every scalar starts at zero. -/
def initial : WorkerState where
  memoryOps := []
  computeOps := .empty
  branchOps := .empty
  instructionsBetweenBarriers := []
  instructionWidth := .empty
  instructionsPerWorkitem := []
  instructionsBetweenLoadOrStore := []
  loadInstructionLabels := .empty
  storeInstructionLabels := .empty
  threadsInvoked := 0
  instructionCount := 0
  workitemInstructionCount := 0
  opsBetweenLoadOrStore := 0
  barriersHit := 0
  constantMemoryAccessCount := 0
  localMemoryAccessCount := 0
  globalMemoryAccessCount := 0
  previousInstructionIsBranch := false
  target1 := ""
  target2 := ""
  branchLoc := 0

/-- The four memory hooks differ only in the address space they leave out. -/
def recordAddress (excluded addressSpace address : Nat) (state : WorkerState) : WorkerState :=
  if addressSpace ≠ excluded then { state with memoryOps := state.memoryOps ++ [address] } else state

def memoryLoad (spaces : AddressSpaces) : Nat → Nat → WorkerState → WorkerState :=
  recordAddress spaces.addrSpacePrivate

def memoryStore (spaces : AddressSpaces) : Nat → Nat → WorkerState → WorkerState :=
  recordAddress spaces.addrSpacePrivate

def memoryAtomicLoad : Nat → Nat → WorkerState → WorkerState := recordAddress 0

def memoryAtomicStore : Nat → Nat → WorkerState → WorkerState := recordAddress 0

def countOpcode (inst : Instruction) (state : WorkerState) : WorkerState :=
  { state with computeOps := state.computeOps.modify inst.opcodeName (· + 1) }

def classifyAccess (spaces : AddressSpaces) (inst : Instruction) (state : WorkerState) :
    WorkerState :=
  match inst.opcode with
  | .load | .store =>
    if inst.pointerAddressSpace = spaces.addrSpaceLocal then
      { state with localMemoryAccessCount := state.localMemoryAccessCount + 1 }
    else if inst.pointerAddressSpace = spaces.addrSpaceGlobal then
      { state with globalMemoryAccessCount := state.globalMemoryAccessCount + 1 }
    else if inst.pointerAddressSpace = spaces.addrSpaceConstant then
      { state with constantMemoryAccessCount := state.constantMemoryAccessCount + 1 }
    else state
  | _ => state

def recordLoadOrStore (inst : Instruction) (state : WorkerState) : WorkerState :=
  let ops := state.opsBetweenLoadOrStore + 1
  match inst.opcode with
  | .load =>
    { state with
      loadInstructionLabels := state.loadInstructionLabels.modify inst.pointerOperandName (· + 1)
      instructionsBetweenLoadOrStore := state.instructionsBetweenLoadOrStore ++ [toUnsigned ops]
      opsBetweenLoadOrStore := 0 }
  | .store =>
    { state with
      storeInstructionLabels := state.storeInstructionLabels.modify inst.pointerOperandName (· + 1)
      instructionsBetweenLoadOrStore := state.instructionsBetweenLoadOrStore ++ [toUnsigned ops]
      opsBetweenLoadOrStore := 0 }
  | _ => { state with opsBetweenLoadOrStore := ops }

def branchingError (str target1 target2 : String) : String :=
  "Error in branching!\nStr was: " ++ str ++ " but target was either: " ++ target1 ++ " or: " ++ target2

/-- The pending conditional branch is classified by the block of the instruction after it. -/
def resolveBranch (inst : Instruction) (state : WorkerState) : Except Fault WorkerState :=
  if state.previousInstructionIsBranch then
    if inst.parent = state.target1 then
      .ok { state with
        branchOps := state.branchOps.modify state.branchLoc (· ++ [true])
        previousInstructionIsBranch := false }
    else if inst.parent = state.target2 then
      .ok { state with
        branchOps := state.branchOps.modify state.branchLoc (· ++ [false])
        previousInstructionIsBranch := false }
    else .error (.branching (branchingError inst.parent state.target1 state.target2))
  else .ok state

def recordBranch (inst : Instruction) (state : WorkerState) : WorkerState :=
  if inst.isConditionalBranch then
    { state with
      previousInstructionIsBranch := true
      target1 := (inst.operand 1).text
      target2 := (inst.operand 2).text
      branchLoc := inst.line }
  else state

def countInstruction (inst : Instruction) (state : WorkerState) : WorkerState :=
  { state with
    instructionCount := state.instructionCount + 1
    workitemInstructionCount := state.workitemInstructionCount + 1
    instructionWidth := state.instructionWidth.modify inst.resultNum (· + 1) }

def instructionExecuted (spaces : AddressSpaces) (inst : Instruction) (state : WorkerState) :
    Except Fault WorkerState := do
  let state ← resolveBranch inst (recordLoadOrStore inst (classifyAccess spaces inst (countOpcode inst state)))
  pure (countInstruction inst (recordBranch inst state))

def workItemBarrier (state : WorkerState) : WorkerState :=
  { state with
    barriersHit := state.barriersHit + 1
    instructionsBetweenBarriers := state.instructionsBetweenBarriers ++ [toUnsigned state.instructionCount]
    instructionCount := 0 }

def workItemClearBarrier (state : WorkerState) : WorkerState :=
  { state with instructionCount := 0 }

def workItemBegin (state : WorkerState) : WorkerState :=
  { state with
    threadsInvoked := state.threadsInvoked + 1
    instructionCount := 0
    workitemInstructionCount := 0
    opsBetweenLoadOrStore := 0 }

def workItemComplete (state : WorkerState) : WorkerState :=
  { state with
    instructionsBetweenBarriers := state.instructionsBetweenBarriers ++ [toUnsigned state.instructionCount]
    instructionsPerWorkitem := state.instructionsPerWorkitem ++ [toUnsigned state.workitemInstructionCount] }

/-- Everything is cleared except `workitem_instruction_count` and `ops_between_load_or_store`. -/
def workGroupBegin (state : WorkerState) : WorkerState :=
  { state with
    memoryOps := []
    computeOps := .empty
    branchOps := .empty
    instructionsBetweenBarriers := []
    instructionWidth := .empty
    instructionsPerWorkitem := []
    instructionsBetweenLoadOrStore := []
    loadInstructionLabels := .empty
    storeInstructionLabels := .empty
    threadsInvoked := 0
    instructionCount := 0
    barriersHit := 0
    constantMemoryAccessCount := 0
    localMemoryAccessCount := 0
    globalMemoryAccessCount := 0
    previousInstructionIsBranch := false
    target1 := ""
    target2 := ""
    branchLoc := 0 }

end WorkerState

/-- The hooks a worker thread fires, in the order the interpreter fires them. -/
inductive WorkerEvent where
  | workGroupBegin
  | workGroupComplete
  | workItemBegin
  | workItemComplete
  | workItemBarrier
  | workItemClearBarrier
  | instructionExecuted (inst : Instruction)
  | memoryLoad (addressSpace address : Nat)
  | memoryStore (addressSpace address : Nat)
  | memoryAtomicLoad (addressSpace address : Nat)
  | memoryAtomicStore (addressSpace address : Nat)
  deriving DecidableEq, Repr

namespace WorkerState

/-- The effect of one hook on the thread-local state. At `workGroupComplete` the worker's
    part is `m_state.memoryOps->clear()`; the merge into the plugin is `Aggregate.merge`. -/
def step (spaces : AddressSpaces) (state : WorkerState) : WorkerEvent → Except Fault WorkerState
  | .workGroupBegin => .ok state.workGroupBegin
  | .workGroupComplete => .ok { state with memoryOps := [] }
  | .workItemBegin => .ok state.workItemBegin
  | .workItemComplete => .ok state.workItemComplete
  | .workItemBarrier => .ok state.workItemBarrier
  | .workItemClearBarrier => .ok state.workItemClearBarrier
  | .instructionExecuted inst => state.instructionExecuted spaces inst
  | .memoryLoad space address => .ok (state.memoryLoad spaces space address)
  | .memoryStore space address => .ok (state.memoryStore spaces space address)
  | .memoryAtomicLoad space address => .ok (state.memoryAtomicLoad space address)
  | .memoryAtomicStore space address => .ok (state.memoryAtomicStore space address)

/-- One worker thread running its hooks in order from `state`. -/
def run (spaces : AddressSpaces) (state : WorkerState) : List WorkerEvent → Except Fault WorkerState
  | [] => .ok state
  | event :: events => do
    let next ← state.step spaces event
    next.run spaces events

end WorkerState

end AiwcModel
