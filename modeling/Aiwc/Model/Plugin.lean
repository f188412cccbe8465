import Aiwc.Model.Worker

namespace AiwcModel

/-- The kernel-scoped members of `WorkloadCharacterisation`: what the work-groups merge
    into and what `kernelEnd` reads. -/
structure Aggregate where
  memoryOps : List Nat
  computeOps : UnorderedMap String Nat
  branchOps : UnorderedMap Nat (List Bool)
  instructionsToBarrier : List Nat
  instructionWidth : UnorderedMap Nat Nat
  instructionsPerWorkitem : List Nat
  instructionsBetweenLoadOrStore : List Nat
  loadInstructionLabels : UnorderedMap String Nat
  storeInstructionLabels : UnorderedMap String Nat
  threadsInvoked : Nat
  barriersHit : Nat
  globalMemoryAccess : Nat
  localMemoryAccess : Nat
  constantMemoryAccess : Nat
  deriving DecidableEq

namespace Aggregate

/-- The members as the clearing in `kernelBegin` leaves them. -/
def empty : Aggregate where
  memoryOps := []
  computeOps := .empty
  branchOps := .empty
  instructionsToBarrier := []
  instructionWidth := .empty
  instructionsPerWorkitem := []
  instructionsBetweenLoadOrStore := []
  loadInstructionLabels := .empty
  storeInstructionLabels := .empty
  threadsInvoked := 0
  barriersHit := 0
  globalMemoryAccess := 0
  localMemoryAccess := 0
  constantMemoryAccess := 0

/-- The body of `workGroupComplete`, run under `m_mtx`. -/
def merge (agg : Aggregate) (state : WorkerState) : Aggregate where
  computeOps := agg.computeOps.addEntries state.computeOps.entries
  memoryOps := agg.memoryOps ++ state.memoryOps
  branchOps := agg.branchOps.appendEntries state.branchOps.entries
  threadsInvoked := agg.threadsInvoked + state.threadsInvoked
  instructionsToBarrier := agg.instructionsToBarrier ++ state.instructionsBetweenBarriers
  barriersHit := agg.barriersHit + state.barriersHit
  instructionWidth := agg.instructionWidth.addEntries state.instructionWidth.entries
  instructionsPerWorkitem := agg.instructionsPerWorkitem ++ state.instructionsPerWorkitem
  instructionsBetweenLoadOrStore :=
    agg.instructionsBetweenLoadOrStore ++ state.instructionsBetweenLoadOrStore
  loadInstructionLabels := agg.loadInstructionLabels.addEntries state.loadInstructionLabels.entries
  storeInstructionLabels := agg.storeInstructionLabels.addEntries state.storeInstructionLabels.entries
  constantMemoryAccess := agg.constantMemoryAccess + state.constantMemoryAccessCount
  localMemoryAccess := agg.localMemoryAccess + state.localMemoryAccessCount
  globalMemoryAccess := agg.globalMemoryAccess + state.globalMemoryAccessCount

/-- The clearing at the end of `kernelEnd`. It leaves `m_instructionWidth`,
    `m_barriers_hit` and the three memory-class counters as they are. -/
def resetAfterReport (agg : Aggregate) : Aggregate :=
  { agg with
    memoryOps := []
    computeOps := .empty
    branchOps := .empty
    instructionsToBarrier := []
    instructionsPerWorkitem := []
    threadsInvoked := 0
    instructionsBetweenLoadOrStore := []
    loadInstructionLabels := .empty
    storeInstructionLabels := .empty }

end Aggregate

/-- The plugin-lifetime members that record host transfers. -/
structure TransferLog where
  hostToDeviceCopy : List String
  deviceToHostCopy : List String
  numberOfHostToDeviceCopiesBeforeKernelNamed : Nat
  lastKernelName : String
  deriving DecidableEq, Repr

namespace TransferLog

/-- As the constructor leaves it. -/
def initial : TransferLog := ⟨[], [], 0, ""⟩

def hostMemoryLoad (log : TransferLog) : TransferLog :=
  { log with deviceToHostCopy := log.deviceToHostCopy ++ [log.lastKernelName] }

def hostMemoryStore (log : TransferLog) : TransferLog :=
  { log with
    hostToDeviceCopy := log.hostToDeviceCopy ++ [log.lastKernelName]
    numberOfHostToDeviceCopiesBeforeKernelNamed := log.numberOfHostToDeviceCopiesBeforeKernelNamed + 1 }

/-- `int end_of_list = m_hostToDeviceCopy.size() - 1;`: a `size_t` difference kept in an `int`. -/
def endOfList (size : Nat) : Int := toInt ((size + 2 ^ 64 - 1) % 2 ^ 64)

/-- `m_hostToDeviceCopy[index] = name`, defined only for an index inside the vector. -/
def assign (copies : List String) (index : Int) (name : String) : Except Fault (List String) :=
  if 0 ≤ index ∧ index < copies.length then .ok (copies.set index.toNat name)
  else .error (.outOfRange index)

/-- The relabelling loop of `kernelBegin` from iteration `i`, with `remaining` iterations left. -/
def relabel (name : String) (last : Int) (i : Nat) : Nat → List String → Except Fault (List String)
  | 0, copies => .ok copies
  | remaining + 1, copies => do
    let copies ← assign copies (last - i) name
    relabel name last (i + 1) remaining copies

/-- The transfer part of `kernelBegin`. -/
def kernelBegin (name : String) (log : TransferLog) : Except Fault TransferLog := do
  let copies ← relabel name (endOfList log.hostToDeviceCopy.length) 0
    log.numberOfHostToDeviceCopiesBeforeKernelNamed log.hostToDeviceCopy
  pure { log with
    lastKernelName := name
    hostToDeviceCopy := copies
    numberOfHostToDeviceCopiesBeforeKernelNamed := 0 }

/-- `std::unique` on a copy of the list: a name is dropped when it equals the name kept
    before it, so only adjacent repetitions go. -/
def unique (names : List String) : List String := names.destutter (· ≠ ·)

/-- The rows the destructor emits for one direction: each name of `unique` with its
    `std::count` in the whole list. -/
def transferRows (copies : List String) : List (String × Nat) :=
  (unique copies).map fun name => (name, copies.count name)

/-- The lines of `aiwc_memory_transfers_<N>.csv`. -/
def transferCsv (log : TransferLog) : List String :=
  "metric,kernel,count" ::
    ((transferRows log.hostToDeviceCopy).map fun row =>
      "transfer: host to device," ++ row.1 ++ "," ++ toString row.2) ++
    ((transferRows log.deviceToHostCopy).map fun row =>
      "transfer: device to host," ++ row.1 ++ "," ++ toString row.2)

/-- The per-kernel lines the destructor prints. -/
def transferLines (log : TransferLog) : List String :=
  "Total Host To Device Transfers (#) for kernel:" ::
    ((transferRows log.hostToDeviceCopy).map fun row => "\t" ++ row.1 ++ ": " ++ toString row.2) ++
    "Total Device To Host Transfers (#) for kernel:" ::
    ((transferRows log.deviceToHostCopy).map fun row => "\t" ++ row.1 ++ ": " ++ toString row.2)

end TransferLog

/-- The state of the plugin instance. -/
structure Plugin where
  aggregate : Aggregate
  transfers : TransferLog
  deriving DecidableEq

namespace Plugin

def initial : Plugin := ⟨.empty, .initial⟩

/-- `kernelBegin`: relabel the pending host-to-device copies, then clear the aggregate. -/
def kernelBegin (name : String) (plugin : Plugin) : Except Fault Plugin := do
  let transfers ← plugin.transfers.kernelBegin name
  pure ⟨.empty, transfers⟩

end Plugin

end AiwcModel
