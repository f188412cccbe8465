import Aiwc.Model.System

namespace AiwcProof

open AiwcModel WorkerState

variable {spaces : AddressSpaces} {inst : Instruction} {state next resolved : WorkerState}

theorem resolveBranch_frame (ok : resolveBranch inst state = .ok resolved) :
    resolved = { state with branchOps := resolved.branchOps, previousInstructionIsBranch := false } := by
  unfold resolveBranch at ok
  split at ok
  · split at ok
    · cases ok
      rfl
    · split at ok
      · cases ok
        rfl
      · cases ok
  · cases ok
    cases state
    simp_all

theorem classifyAccess_frame (s : WorkerState) :
    classifyAccess spaces inst s = { s with
      localMemoryAccessCount := (classifyAccess spaces inst s).localMemoryAccessCount
      globalMemoryAccessCount := (classifyAccess spaces inst s).globalMemoryAccessCount
      constantMemoryAccessCount := (classifyAccess spaces inst s).constantMemoryAccessCount } := by
  unfold classifyAccess
  split <;> (try split_ifs) <;> rfl

theorem recordLoadOrStore_frame (s : WorkerState) :
    recordLoadOrStore inst s = { s with
      loadInstructionLabels := (recordLoadOrStore inst s).loadInstructionLabels
      storeInstructionLabels := (recordLoadOrStore inst s).storeInstructionLabels
      instructionsBetweenLoadOrStore := (recordLoadOrStore inst s).instructionsBetweenLoadOrStore
      opsBetweenLoadOrStore := (recordLoadOrStore inst s).opsBetweenLoadOrStore } := by
  unfold recordLoadOrStore
  split <;> rfl

theorem recordBranch_frame (s : WorkerState) :
    recordBranch inst s = { s with
      previousInstructionIsBranch := (recordBranch inst s).previousInstructionIsBranch
      target1 := (recordBranch inst s).target1
      target2 := (recordBranch inst s).target2
      branchLoc := (recordBranch inst s).branchLoc } := by
  unfold recordBranch
  split <;> rfl

theorem instructionExecuted_ok (ok : state.instructionExecuted spaces inst = .ok next) :
    ∃ resolved, resolveBranch inst (recordLoadOrStore inst (classifyAccess spaces inst (countOpcode inst state))) =
      .ok resolved ∧ next = countInstruction inst (recordBranch inst resolved) := by
  unfold instructionExecuted at ok
  cases resolving : resolveBranch inst (recordLoadOrStore inst (classifyAccess spaces inst (countOpcode inst state))) with
  | error fault => simp [resolving, bind, Except.bind] at ok
  | ok resolved =>
    simp only [resolving, bind, Except.bind, pure, Except.pure, Except.ok.injEq] at ok
    exact ⟨resolved, rfl, ok.symm⟩

theorem instructionExecuted_frame (ok : state.instructionExecuted spaces inst = .ok next) :
    next = { state with
      computeOps := state.computeOps.modify inst.opcodeName (· + 1)
      instructionWidth := state.instructionWidth.modify inst.resultNum (· + 1)
      instructionCount := state.instructionCount + 1
      workitemInstructionCount := state.workitemInstructionCount + 1
      branchOps := next.branchOps
      previousInstructionIsBranch := next.previousInstructionIsBranch
      target1 := next.target1
      target2 := next.target2
      branchLoc := next.branchLoc
      loadInstructionLabels := next.loadInstructionLabels
      storeInstructionLabels := next.storeInstructionLabels
      instructionsBetweenLoadOrStore := next.instructionsBetweenLoadOrStore
      opsBetweenLoadOrStore := next.opsBetweenLoadOrStore
      localMemoryAccessCount := next.localMemoryAccessCount
      globalMemoryAccessCount := next.globalMemoryAccessCount
      constantMemoryAccessCount := next.constantMemoryAccessCount } := by
  obtain ⟨resolved, resolvedOk, rfl⟩ := instructionExecuted_ok ok
  have frame := resolveBranch_frame resolvedOk
  rw [recordLoadOrStore_frame, classifyAccess_frame] at frame
  unfold recordBranch
  split <;> rw [frame] <;> rfl

end AiwcProof
