import Mathlib
import Aiwc.Proof.Counting
import Aiwc.Model.Metrics

namespace AiwcProof

open AiwcModel WorkerState

/-- The address space of the pointer of a load or store instruction. -/
def accessSpace : WorkerEvent → Option Nat
  | .instructionExecuted inst =>
    match inst.opcode with
    | .load | .store => some inst.pointerAddressSpace
    | _ => none
  | _ => none

def isLoad : WorkerEvent → Bool
  | .instructionExecuted inst => inst.opcode = .load
  | _ => false

def isStore : WorkerEvent → Bool
  | .instructionExecuted inst => inst.opcode = .store
  | _ => false

/-- A load or store whose pointer is in `space`. -/
def accessIn (space : Nat) (event : WorkerEvent) : Bool := accessSpace event = some space

section Hooks

variable {spaces : AddressSpaces} {inst : Instruction} {state next : WorkerState} {event : WorkerEvent}

theorem recordLoadOrStore_counts (inst : Instruction) (s : WorkerState) :
    (recordLoadOrStore inst s).loadInstructionLabels.valueSum =
      s.loadInstructionLabels.valueSum + marked isLoad (.instructionExecuted inst) ∧
    (recordLoadOrStore inst s).storeInstructionLabels.valueSum =
      s.storeInstructionLabels.valueSum + marked isStore (.instructionExecuted inst) ∧
    (recordLoadOrStore inst s).instructionsBetweenLoadOrStore.length = s.instructionsBetweenLoadOrStore.length +
      marked isLoad (.instructionExecuted inst) + marked isStore (.instructionExecuted inst) ∧
    (recordLoadOrStore inst s).localMemoryAccessCount = s.localMemoryAccessCount ∧
    (recordLoadOrStore inst s).globalMemoryAccessCount = s.globalMemoryAccessCount ∧
    (recordLoadOrStore inst s).constantMemoryAccessCount = s.constantMemoryAccessCount := by
  unfold recordLoadOrStore
  cases opcode : inst.opcode <;> simp [opcode, marked, isLoad, isStore, UnorderedMap.valueSum_modify_add]

theorem classifyAccess_counts (spaces : AddressSpaces) (inst : Instruction) (s : WorkerState) :
    (classifyAccess spaces inst s).loadInstructionLabels = s.loadInstructionLabels ∧
    (classifyAccess spaces inst s).storeInstructionLabels = s.storeInstructionLabels ∧
    (classifyAccess spaces inst s).instructionsBetweenLoadOrStore = s.instructionsBetweenLoadOrStore ∧
    (classifyAccess spaces inst s).localMemoryAccessCount =
      s.localMemoryAccessCount + marked (accessIn spaces.addrSpaceLocal) (.instructionExecuted inst) ∧
    (classifyAccess spaces inst s).globalMemoryAccessCount = s.globalMemoryAccessCount +
      marked (fun e => accessIn spaces.addrSpaceGlobal e && !accessIn spaces.addrSpaceLocal e)
        (.instructionExecuted inst) ∧
    (classifyAccess spaces inst s).constantMemoryAccessCount = s.constantMemoryAccessCount +
      marked (fun e => accessIn spaces.addrSpaceConstant e && !accessIn spaces.addrSpaceLocal e &&
        !accessIn spaces.addrSpaceGlobal e) (.instructionExecuted inst) := by
  unfold classifyAccess
  cases opcode : inst.opcode
  case load | store =>
    simp only [opcode]
    split_ifs <;> simp_all [marked, accessIn, accessSpace]
  all_goals simp [marked, accessIn, accessSpace, opcode]

theorem instructionExecuted_accounting (ok : state.instructionExecuted spaces inst = .ok next) :
    next.loadInstructionLabels.valueSum =
      state.loadInstructionLabels.valueSum + marked isLoad (.instructionExecuted inst) ∧
    next.storeInstructionLabels.valueSum =
      state.storeInstructionLabels.valueSum + marked isStore (.instructionExecuted inst) ∧
    next.instructionsBetweenLoadOrStore.length = state.instructionsBetweenLoadOrStore.length +
      marked isLoad (.instructionExecuted inst) + marked isStore (.instructionExecuted inst) ∧
    next.localMemoryAccessCount = state.localMemoryAccessCount +
      marked (accessIn spaces.addrSpaceLocal) (.instructionExecuted inst) ∧
    next.globalMemoryAccessCount = state.globalMemoryAccessCount +
      marked (fun e => accessIn spaces.addrSpaceGlobal e && !accessIn spaces.addrSpaceLocal e)
        (.instructionExecuted inst) ∧
    next.constantMemoryAccessCount = state.constantMemoryAccessCount +
      marked (fun e => accessIn spaces.addrSpaceConstant e && !accessIn spaces.addrSpaceLocal e &&
        !accessIn spaces.addrSpaceGlobal e) (.instructionExecuted inst) := by
  obtain ⟨resolved, resolvedOk, rfl⟩ := instructionExecuted_ok ok
  obtain ⟨loads, stores, gaps, locals, globals, constants⟩ :=
    recordLoadOrStore_counts inst (classifyAccess spaces inst (countOpcode inst state))
  obtain ⟨loads', stores', gaps', locals', globals', constants'⟩ :=
    classifyAccess_counts spaces inst (countOpcode inst state)
  rw [resolveBranch_frame resolvedOk, recordBranch_frame]
  simp only [countInstruction]
  rw [loads, stores, gaps, locals, globals, constants, loads', stores', gaps', locals', globals', constants']
  exact ⟨rfl, rfl, rfl, rfl, rfl, rfl⟩

theorem hook_accounting (notBegin : event ≠ .workGroupBegin) (notComplete : event ≠ .workGroupComplete)
    (ok : state.step spaces event = .ok next) :
    next.loadInstructionLabels.valueSum = state.loadInstructionLabels.valueSum + marked isLoad event ∧
    next.storeInstructionLabels.valueSum = state.storeInstructionLabels.valueSum + marked isStore event ∧
    next.instructionsBetweenLoadOrStore.length =
      state.instructionsBetweenLoadOrStore.length + marked isLoad event + marked isStore event ∧
    next.localMemoryAccessCount = state.localMemoryAccessCount + marked (accessIn spaces.addrSpaceLocal) event ∧
    next.globalMemoryAccessCount = state.globalMemoryAccessCount +
      marked (fun e => accessIn spaces.addrSpaceGlobal e && !accessIn spaces.addrSpaceLocal e) event ∧
    next.constantMemoryAccessCount = state.constantMemoryAccessCount +
      marked (fun e => accessIn spaces.addrSpaceConstant e && !accessIn spaces.addrSpaceLocal e &&
        !accessIn spaces.addrSpaceGlobal e) event := by
  cases event with
  | workGroupBegin => exact absurd rfl notBegin
  | workGroupComplete => exact absurd rfl notComplete
  | instructionExecuted inst => exact instructionExecuted_accounting ok
  | _ =>
    simp only [WorkerState.step, Except.ok.injEq] at ok
    subst ok
    simp [WorkerState.workItemBegin, WorkerState.workItemComplete, WorkerState.workItemBarrier,
      WorkerState.workItemClearBarrier, WorkerState.memoryLoad, WorkerState.memoryStore,
      WorkerState.memoryAtomicLoad, WorkerState.memoryAtomicStore, recordAddress_eq, marked, isLoad, isStore,
      accessIn, accessSpace]

end Hooks

variable (spaces : AddressSpaces)

def loadTally : Tally spaces where
  worker state := state.loadInstructionLabels.valueSum
  aggregate agg := agg.loadInstructionLabels.valueSum
  weight := marked isLoad
  merge _ _ := UnorderedMap.valueSum_addEntries _ _
  begin _ := rfl
  empty := rfl
  hook _ _ _ notBegin notComplete ok := (hook_accounting notBegin notComplete ok).1
  weight_begin := rfl
  weight_complete := rfl

def storeTally : Tally spaces where
  worker state := state.storeInstructionLabels.valueSum
  aggregate agg := agg.storeInstructionLabels.valueSum
  weight := marked isStore
  merge _ _ := UnorderedMap.valueSum_addEntries _ _
  begin _ := rfl
  empty := rfl
  hook _ _ _ notBegin notComplete ok := (hook_accounting notBegin notComplete ok).2.1
  weight_begin := rfl
  weight_complete := rfl

def gapTally : Tally spaces where
  worker state := state.instructionsBetweenLoadOrStore.length
  aggregate agg := agg.instructionsBetweenLoadOrStore.length
  weight event := marked isLoad event + marked isStore event
  merge _ _ := List.length_append _ _
  begin _ := rfl
  empty := rfl
  hook _ _ _ notBegin notComplete ok := by
    dsimp only
    rw [(hook_accounting notBegin notComplete ok).2.2.1, Nat.add_assoc]
  weight_begin := rfl
  weight_complete := rfl

def localTally : Tally spaces where
  worker state := state.localMemoryAccessCount
  aggregate agg := agg.localMemoryAccess
  weight := marked (accessIn spaces.addrSpaceLocal)
  merge _ _ := rfl
  begin _ := rfl
  empty := rfl
  hook _ _ _ notBegin notComplete ok := (hook_accounting notBegin notComplete ok).2.2.2.1
  weight_begin := rfl
  weight_complete := rfl

def globalTally : Tally spaces where
  worker state := state.globalMemoryAccessCount
  aggregate agg := agg.globalMemoryAccess
  weight := marked fun e => accessIn spaces.addrSpaceGlobal e && !accessIn spaces.addrSpaceLocal e
  merge _ _ := rfl
  begin _ := rfl
  empty := rfl
  hook _ _ _ notBegin notComplete ok := (hook_accounting notBegin notComplete ok).2.2.2.2.1
  weight_begin := rfl
  weight_complete := rfl

def constantTally : Tally spaces where
  worker state := state.constantMemoryAccessCount
  aggregate agg := agg.constantMemoryAccess
  weight := marked fun e => accessIn spaces.addrSpaceConstant e && !accessIn spaces.addrSpaceLocal e &&
    !accessIn spaces.addrSpaceGlobal e
  merge _ _ := rfl
  begin _ := rfl
  empty := rfl
  hook _ _ _ notBegin notComplete ok := (hook_accounting notBegin notComplete ok).2.2.2.2.2
  weight_begin := rfl
  weight_complete := rfl

variable {spaces}

theorem foldl_add_entries {R : Type} [LinearOrderedField R] (init : R) (entries : List (String × Nat)) :
    entries.foldl (fun sum entry => sum + (entry.2 : R)) init = init + ((entries.map Prod.snd).sum : Nat) := by
  induction entries generalizing init with
  | nil => simp
  | cons entry rest ih =>
    rw [List.foldl_cons, ih]
    push_cast [List.map_cons, List.sum_cons]
    ring

theorem accessIn_exclusive {space other : Nat} (distinct : space ≠ other) (event : WorkerEvent) :
    (accessIn space event && !accessIn other event) = accessIn space event := by
  unfold accessIn
  cases accessSpace event with
  | none => rfl
  | some s => by_cases here : s = space <;> simp [here, distinct]

/-- At `kernelEnd` of a well-formed invocation, reached from any state: the label maps count
    the loads and the stores, `m_instructionsBetweenLoadOrStore` holds one gap per load or
    store, and `resourcePressure` is the number of loads and stores per work-item. With the
    three address spaces distinct, as the cases of a `switch` are, each memory-class counter
    counts the loads and stores whose pointer is in its space. -/
theorem memory_accounting {R : Type} [LinearOrderedField R] (log2 sqrt : R → R) (spaces : AddressSpaces)
    (name : String) (body : List (Nat × WorkerEvent)) (system after : System) (counts : Counts)
    (wf : WellFormedBody body)
    (distinct : spaces.addrSpaceLocal ≠ spaces.addrSpaceGlobal ∧ spaces.addrSpaceLocal ≠ spaces.addrSpaceConstant ∧
      spaces.addrSpaceGlobal ≠ spaces.addrSpaceConstant)
    (ran : system.run spaces (.kernelBegin name :: body.map fun e => .worker e.1 e.2) = .ok after) :
    after.plugin.aggregate.loadInstructionLabels.valueSum = body.countP (isLoad ·.2) ∧
    after.plugin.aggregate.storeInstructionLabels.valueSum = body.countP (isStore ·.2) ∧
    after.plugin.aggregate.instructionsBetweenLoadOrStore.length =
      body.countP (isLoad ·.2) + body.countP (isStore ·.2) ∧
    (report log2 sqrt after.plugin.aggregate counts).resourcePressure =
      ((body.countP (isLoad ·.2) + body.countP (isStore ·.2) : Nat) : R) / (body.countP (isItemBegin ·.2) : R) ∧
    after.plugin.aggregate.localMemoryAccess = body.countP (accessIn spaces.addrSpaceLocal ·.2) ∧
    after.plugin.aggregate.globalMemoryAccess = body.countP (accessIn spaces.addrSpaceGlobal ·.2) ∧
    after.plugin.aggregate.constantMemoryAccess = body.countP (accessIn spaces.addrSpaceConstant ·.2) := by
  have loads := (loadTally spaces).invocation_total wf ran
  have stores := (storeTally spaces).invocation_total wf ran
  have gaps := (gapTally spaces).invocation_total wf ran
  have locals := (localTally spaces).invocation_total wf ran
  have globals := (globalTally spaces).invocation_total wf ran
  have constants := (constantTally spaces).invocation_total wf ran
  have threads := (threadTally spaces).invocation_total wf ran
  simp only [loadTally, storeTally, gapTally, localTally, globalTally, constantTally, threadTally,
    List.sum_map_add, sum_marked, accessIn_exclusive (Ne.symm distinct.1),
    accessIn_exclusive (Ne.symm distinct.2.1), accessIn_exclusive (Ne.symm distinct.2.2)]
    at loads stores gaps locals globals constants threads
  refine ⟨loads, stores, gaps, ?_, locals, globals, constants⟩
  simp only [UnorderedMap.valueSum] at loads stores
  simp only [report, foldl_add_entries, loads, stores, threads]
  push_cast
  ring

theorem memory_accounting_one_load :
    let load : Instruction := ⟨.load, "load", [], 1, "p", 3, "%entry", 1⟩
    let body : List (Nat × WorkerEvent) := [(0, .workGroupBegin), (0, .workItemBegin),
      (0, .instructionExecuted load), (0, .memoryLoad 1 64), (0, .workItemComplete), (0, .workGroupComplete)]
    let spaces : AddressSpaces := ⟨0, 1, 2, 3⟩
    WellFormedBody body ∧
      (spaces.addrSpaceLocal ≠ spaces.addrSpaceGlobal ∧ spaces.addrSpaceLocal ≠ spaces.addrSpaceConstant ∧
        spaces.addrSpaceGlobal ≠ spaces.addrSpaceConstant) ∧
      ∃ after, System.initial.run spaces (.kernelBegin "k" :: body.map fun e => .worker e.1 e.2) = .ok after ∧
        after.plugin.aggregate.loadInstructionLabels.valueSum = body.countP (isLoad ·.2) ∧
        after.plugin.aggregate.storeInstructionLabels.valueSum = body.countP (isStore ·.2) ∧
        after.plugin.aggregate.instructionsBetweenLoadOrStore.length =
          body.countP (isLoad ·.2) + body.countP (isStore ·.2) ∧
        (report (id : ℚ → ℚ) id after.plugin.aggregate ⟨0, 0, 0, 0, 0, 0, 0, 0, 0, 0, 0, 0, [], 0, 0, 0, 0, 0, 0, 0⟩).resourcePressure =
          ((body.countP (isLoad ·.2) + body.countP (isStore ·.2) : Nat) : ℚ) / (body.countP (isItemBegin ·.2) : ℚ) ∧
        after.plugin.aggregate.localMemoryAccess = body.countP (accessIn spaces.addrSpaceLocal ·.2) ∧
        after.plugin.aggregate.globalMemoryAccess = body.countP (accessIn spaces.addrSpaceGlobal ·.2) ∧
        after.plugin.aggregate.constantMemoryAccess = body.countP (accessIn spaces.addrSpaceConstant ·.2) := by
  intro load body spaces
  obtain ⟨after, ran⟩ : ∃ after, System.initial.run spaces
      (.kernelBegin "k" :: body.map fun e => .worker e.1 e.2) = .ok after := ⟨_, rfl⟩
  exact ⟨by decide, by decide, after, ran,
    memory_accounting id id spaces "k" body .initial after _ (by decide) (by decide) ran⟩

end AiwcProof
