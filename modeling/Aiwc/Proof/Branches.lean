import Aiwc.Proof.Counting

namespace AiwcProof

open AiwcModel

section Outcomes

/-- The line and the two target blocks of a conditional branch. -/
def branchTargets (inst : Instruction) : Option (Nat × String × String) :=
  if inst.isConditionalBranch then some (inst.line, (inst.operand 1).text, (inst.operand 2).text)
  else none

def nextInstruction : List WorkerEvent → Option Instruction
  | [] => none
  | .instructionExecuted inst :: _ => some inst
  | .workGroupBegin :: _ => none
  | .workGroupComplete :: _ => none
  | _ :: rest => nextInstruction rest

/-- Where control went from a branch: its line, and whether the next instruction of the
    work-group is in the block of operand 1. -/
def outcome : Option (Nat × String × String) → List WorkerEvent → List (Nat × Bool)
  | some (line, target1, _), rest =>
    match nextInstruction rest with
    | some next => [(line, decide (next.parent = target1))]
    | none => []
  | none, _ => []

/-- The host's guarantee for a branch: the next instruction of its work-group is in one of
    its two target blocks. -/
def Resolves : Option (Nat × String × String) → List WorkerEvent → Prop
  | some (_, target1, target2), rest =>
    ∃ next, nextInstruction rest = some next ∧ (next.parent = target1 ∨ next.parent = target2)
  | none, _ => True

/-- Every conditional branch a worker executes, in order, with where control went. -/
def branchOutcomes : List WorkerEvent → List (Nat × Bool)
  | [] => []
  | .instructionExecuted inst :: rest => outcome (branchTargets inst) rest ++ branchOutcomes rest
  | _ :: rest => branchOutcomes rest

def BranchesResolve : List WorkerEvent → Prop
  | [] => True
  | .instructionExecuted inst :: rest => Resolves (branchTargets inst) rest ∧ BranchesResolve rest
  | _ :: rest => BranchesResolve rest

def outcomesAt (line : Nat) (outcomes : List (Nat × Bool)) : List Bool :=
  (outcomes.filter fun outcome => outcome.1 = line).map Prod.snd

/-- A branch map that holds at each line exactly the outcomes of that line, and nothing at
    a line without one. -/
def Records (ops : UnorderedMap Nat (List Bool)) (outcomes : List (Nat × Bool)) : Prop :=
  ∀ line, ops.find? line =
    if outcomesAt line outcomes = [] then none else some (outcomesAt line outcomes)

variable {rest rest' : List WorkerEvent} {event : WorkerEvent}

theorem nextInstruction_skip (notBegin : event ≠ .workGroupBegin)
    (notComplete : event ≠ .workGroupComplete)
    (notInstruction : ∀ inst, event ≠ .instructionExecuted inst) :
    nextInstruction (event :: rest) = nextInstruction rest := by
  cases event <;> simp_all [nextInstruction]

theorem branchOutcomes_skip (notInstruction : ∀ inst, event ≠ .instructionExecuted inst) :
    branchOutcomes (event :: rest) = branchOutcomes rest := by
  cases event <;> simp_all [branchOutcomes]

theorem outcome_congr (branch : Option (Nat × String × String))
    (same : nextInstruction rest = nextInstruction rest') :
    outcome branch rest = outcome branch rest' := by
  rcases branch with _ | ⟨line, target1, target2⟩ <;> simp [outcome, same]

theorem resolves_congr (branch : Option (Nat × String × String))
    (same : nextInstruction rest = nextInstruction rest') :
    Resolves branch rest ↔ Resolves branch rest' := by
  rcases branch with _ | ⟨line, target1, target2⟩ <;> simp [Resolves, same]

@[simp] theorem outcome_none (rest : List WorkerEvent) : outcome none rest = [] := rfl

theorem outcome_of_nextInstruction (branch : Option (Nat × String × String))
    (none : nextInstruction rest = none) : outcome branch rest = [] := by
  rcases branch with _ | ⟨line, target1, target2⟩ <;> simp [outcome, none]

theorem eq_none_of_resolves_complete {branch : Option (Nat × String × String)}
    (resolves : Resolves branch (.workGroupComplete :: rest)) : branch = none := by
  rcases branch with _ | ⟨line, target1, target2⟩ <;> simp_all [Resolves, nextInstruction]

theorem nextInstruction_of_idle {q : Phase} (follow : Phase.idle.follow rest = some q) :
    nextInstruction rest = none := by
  cases rest with
  | nil => rfl
  | cons event rest =>
    obtain ⟨mid, advance, _⟩ := follow_cons_some follow
    cases event <;> simp_all [Phase.next, nextInstruction]

theorem outcomesAt_append (line : Nat) (first second : List (Nat × Bool)) :
    outcomesAt line (first ++ second) = outcomesAt line first ++ outcomesAt line second := by
  simp [outcomesAt]

theorem outcomesAt_singleton (line other : Nat) (taken : Bool) :
    outcomesAt other [(line, taken)] = if line = other then [taken] else [] := by
  by_cases same : line = other <;> simp [outcomesAt, same]

theorem records_empty : Records .empty [] := fun _ => rfl

theorem records_push {ops : UnorderedMap Nat (List Bool)} {outcomes : List (Nat × Bool)}
    (held : Records ops outcomes) (line : Nat) (taken : Bool) :
    Records (ops.modify line (· ++ [taken])) (outcomes ++ [(line, taken)]) := by
  intro other
  rw [UnorderedMap.find?_modify, outcomesAt_append, outcomesAt_singleton]
  by_cases same : other = line
  · subst other
    rw [held]
    by_cases none : outcomesAt line outcomes = []
    · simp [none]
      rfl
    · simp [none]
  · simp [same, held other, Ne.symm same]

theorem records_merge {ops : UnorderedMap Nat (List Bool)} {state : WorkerState}
    {merged current : List (Nat × Bool)} (held : Records ops merged)
    (worker : Records state.branchOps current) :
    Records (ops.appendEntries state.branchOps.entries) (merged ++ current) := by
  intro line
  have own : UnorderedMap.lookupEntries line state.branchOps.entries = state.branchOps.find? line :=
    rfl
  rw [UnorderedMap.find?_appendEntries _ _ state.branchOps.nodupKeys, own, held, worker,
    outcomesAt_append]
  by_cases first : outcomesAt line merged = [] <;>
    by_cases second : outcomesAt line current = [] <;> simp [first, second]

end Outcomes

section Worker

open WorkerState

def pendingBranch (state : WorkerState) : Option (Nat × String × String) :=
  if state.previousInstructionIsBranch then some (state.branchLoc, state.target1, state.target2)
  else none

variable {spaces : AddressSpaces} {inst : Instruction} {state next : WorkerState}
  {event : WorkerEvent} {rest : List WorkerEvent}

@[simp] theorem recordBranch_branchOps (state : WorkerState) :
    (recordBranch inst state).branchOps = state.branchOps := by
  unfold recordBranch
  split <;> rfl

theorem resolveBranch_ok (resolves : state.previousInstructionIsBranch = true →
    inst.parent = state.target1 ∨ inst.parent = state.target2) :
    resolveBranch inst state = .ok (if state.previousInstructionIsBranch then
      { state with
        branchOps := state.branchOps.modify state.branchLoc (· ++ [decide (inst.parent = state.target1)])
        previousInstructionIsBranch := false }
      else state) := by
  unfold resolveBranch
  by_cases pending : state.previousInstructionIsBranch
  · by_cases first : inst.parent = state.target1
    · simp [pending, first]
    · rw [if_pos pending, if_neg first, if_pos ((resolves pending).resolve_left first),
        if_pos pending, decide_eq_false first]
  · simp [pending]

theorem resolves_instruction
    (resolves : Resolves (pendingBranch state) (.instructionExecuted inst :: rest))
    (previous : state.previousInstructionIsBranch = true) :
    inst.parent = state.target1 ∨ inst.parent = state.target2 := by
  simpa [pendingBranch, previous, Resolves, nextInstruction] using resolves

theorem instructionExecuted_branches (spaces : AddressSpaces)
    (resolves : state.previousInstructionIsBranch = true →
      inst.parent = state.target1 ∨ inst.parent = state.target2) :
    ∃ next, state.instructionExecuted spaces inst = .ok next ∧
      next.branchOps = (if state.previousInstructionIsBranch then
        state.branchOps.modify state.branchLoc (· ++ [decide (inst.parent = state.target1)])
        else state.branchOps) ∧
      pendingBranch next = branchTargets inst := by
  obtain ⟨ops, previous, first, second, loc⟩ :
      let counted := recordLoadOrStore inst (classifyAccess spaces inst (countOpcode inst state))
      counted.branchOps = state.branchOps ∧
        counted.previousInstructionIsBranch = state.previousInstructionIsBranch ∧
        counted.target1 = state.target1 ∧ counted.target2 = state.target2 ∧
        counted.branchLoc = state.branchLoc := by
    dsimp only
    rw [recordLoadOrStore_frame, classifyAccess_frame]
    exact ⟨rfl, rfl, rfl, rfl, rfl⟩
  have resolved :
      resolveBranch inst (recordLoadOrStore inst (classifyAccess spaces inst (countOpcode inst state))) =
        _ :=
    resolveBranch_ok (by rw [previous, first, second]; exact resolves)
  refine ⟨_, by rw [instructionExecuted, resolved]; rfl, ?_, ?_⟩
  · by_cases pending : state.previousInstructionIsBranch <;>
      simp [pending, previous, ops, first, loc, countInstruction]
  · by_cases branch : inst.isConditionalBranch
    · simp [branch, pendingBranch, branchTargets, countInstruction, recordBranch]
    · by_cases pending : state.previousInstructionIsBranch <;>
        simp [branch, pending, previous, pendingBranch, branchTargets, countInstruction, recordBranch]

theorem step_branch_frame (notBegin : event ≠ .workGroupBegin)
    (notInstruction : ∀ inst, event ≠ .instructionExecuted inst)
    (ok : state.step spaces event = .ok next) :
    next.branchOps = state.branchOps ∧ pendingBranch next = pendingBranch state := by
  cases event with
  | workGroupBegin => exact absurd rfl notBegin
  | instructionExecuted inst => exact absurd rfl (notInstruction inst)
  | _ =>
    simp only [WorkerState.step, Except.ok.injEq] at ok
    subst ok
    simp [pendingBranch, workItemBegin, workItemComplete, workItemBarrier, workItemClearBarrier,
      memoryLoad, memoryStore, memoryAtomicLoad, memoryAtomicStore, recordAddress_eq]

end Worker

section Run

variable {spaces : AddressSpaces} {w : Nat} {system : System} {phase q : Phase}
  {merged current : List (Nat × Bool)} {event : WorkerEvent} {rest : List WorkerEvent}

/-- What holds of worker `w` and the aggregate while the hooks `rest` are still to come:
    the aggregate records `merged`, the outcomes of the finished work-groups; inside a
    work-group the worker records `current` and its pending branch resolves. -/
structure Tracks (w : Nat) (system : System) (phase : Phase) (merged current : List (Nat × Bool))
    (rest : List WorkerEvent) : Prop where
  aggregate : Records system.plugin.aggregate.branchOps merged
  idle : phase = .idle → current = []
  worker : phase ≠ .idle → Records (system.workers w).branchOps current
  pending : phase ≠ .idle → Resolves (pendingBranch (system.workers w)) rest

theorem branchesResolve_tail (resolves : BranchesResolve (event :: rest)) :
    BranchesResolve rest := by
  cases event <;> simp_all [BranchesResolve]

/-- The outcomes the aggregate holds once `rest` has run from `system`: those merged, the
    worker's, the pending branch's and those of `rest`. -/
def expected (w : Nat) (system : System) (merged current : List (Nat × Bool))
    (rest : List WorkerEvent) : List (Nat × Bool) :=
  merged ++ current ++ outcome (pendingBranch (system.workers w)) rest ++ branchOutcomes rest

theorem step_tracks_other (notBegin : event ≠ .workGroupBegin)
    (notComplete : event ≠ .workGroupComplete)
    (notInstruction : ∀ inst, event ≠ .instructionExecuted inst)
    (tracks : Tracks w system phase merged current (event :: rest))
    (advance : phase.next event = some q) :
    ∃ mid, system.step spaces (.worker w event) = .ok mid ∧ Tracks w mid q merged current rest ∧
      expected w system merged current (event :: rest) = expected w mid merged current rest := by
  have inside := next_inside notBegin notComplete advance
  have skip : nextInstruction (event :: rest) = nextInstruction rest :=
    nextInstruction_skip notBegin notComplete notInstruction
  obtain ⟨next, ok⟩ : ∃ next, (system.workers w).step spaces event = .ok next := by
    cases event <;> first | exact ⟨_, rfl⟩ | exact absurd rfl (notInstruction _)
  obtain ⟨ops, pending⟩ := step_branch_frame notBegin notInstruction ok
  refine ⟨_, step_worker_eq ok, ⟨?_, fun idle => absurd idle inside.2, fun _ => ?_, fun _ => ?_⟩, ?_⟩
  · simpa [notComplete] using tracks.aggregate
  · simpa [ops] using tracks.worker inside.1
  · simp only [Function.update_same, pending]
    exact (resolves_congr _ skip).mp (tracks.pending inside.1)
  · simp [expected, pending, outcome_congr _ skip, branchOutcomes_skip notInstruction]

theorem step_tracks (spaces : AddressSpaces)
    (tracks : Tracks w system phase merged current (event :: rest))
    (advance : phase.next event = some q) (resolves : BranchesResolve (event :: rest)) :
    ∃ mid merged' current', system.step spaces (.worker w event) = .ok mid ∧
      Tracks w mid q merged' current' rest ∧
      expected w system merged current (event :: rest) = expected w mid merged' current' rest := by
  cases event with
  | workGroupBegin =>
    obtain ⟨rfl, rfl⟩ := next_begin advance
    refine ⟨_, merged, [], step_worker_eq rfl, ⟨?_, nofun, fun _ => ?_, fun _ => ?_⟩, ?_⟩
    · simpa using tracks.aggregate
    · simpa [WorkerState.workGroupBegin] using records_empty
    · simp [WorkerState.workGroupBegin, pendingBranch, Resolves]
    · simp [expected, tracks.idle rfl, outcome_of_nextInstruction, nextInstruction, branchOutcomes,
        pendingBranch, WorkerState.workGroupBegin]
  | workGroupComplete =>
    obtain ⟨rfl, rfl⟩ := next_complete advance
    have settled := eq_none_of_resolves_complete (tracks.pending nofun)
    refine ⟨_, merged ++ current, [], step_worker_eq rfl, ⟨?_, fun _ => rfl, nofun, nofun⟩, ?_⟩
    · simpa using records_merge tracks.aggregate (tracks.worker nofun)
    · have cleared :
          pendingBranch { system.workers w with memoryOps := [] } = pendingBranch (system.workers w) :=
        rfl
      simp [expected, cleared, settled, branchOutcomes]
  | instructionExecuted inst =>
    have inside := next_inside (by simp) (by simp) advance
    simp only [BranchesResolve] at resolves
    obtain ⟨next, ok, ops, pending⟩ :=
      instructionExecuted_branches spaces (resolves_instruction (tracks.pending inside.1))
    refine ⟨_, merged,
      current ++ outcome (pendingBranch (system.workers w)) (.instructionExecuted inst :: rest),
      step_worker_eq ok, ⟨?_, fun idle => absurd idle inside.2, fun _ => ?_, fun _ => ?_⟩, ?_⟩
    · simpa using tracks.aggregate
    · simp only [Function.update_same, ops]
      by_cases previous : (system.workers w).previousInstructionIsBranch
      · simpa [previous, pendingBranch, outcome, nextInstruction] using
          records_push (tracks.worker inside.1) _ _
      · simpa [previous, pendingBranch] using tracks.worker inside.1
    · simpa [pending] using resolves.1
    · simp [expected, pending, branchOutcomes]
  | _ =>
    obtain ⟨mid, stepped, tracks', same⟩ :=
      step_tracks_other (by simp) (by simp) (by simp) tracks advance
    exact ⟨mid, merged, current, stepped, tracks', same⟩

theorem run_tracks (spaces : AddressSpaces) (w : Nat) (rest : List WorkerEvent) (system : System)
    (phase : Phase) (merged current : List (Nat × Bool)) (follow : phase.follow rest = some .idle)
    (resolves : BranchesResolve rest) (tracks : Tracks w system phase merged current rest) :
    ∃ after, system.run spaces (rest.map (.worker w)) = .ok after ∧
      Records after.plugin.aggregate.branchOps (expected w system merged current rest) := by
  induction rest generalizing system phase merged current with
  | nil =>
    have done : outcome (pendingBranch (system.workers w)) [] = [] :=
      outcome_of_nextInstruction _ rfl
    refine ⟨system, rfl, ?_⟩
    simpa [expected, tracks.idle (follow_nil_idle follow), done, branchOutcomes] using
      tracks.aggregate
  | cons event rest ih =>
    obtain ⟨q, advance, follow⟩ := follow_cons_some follow
    obtain ⟨mid, merged', current', stepped, tracks', same⟩ :=
      step_tracks spaces tracks advance resolves
    obtain ⟨after, ran, records⟩ :=
      ih mid q merged' current' follow (branchesResolve_tail resolves) tracks'
    refine ⟨after, ?_, same ▸ records⟩
    simp [System.run, stepped, bind, Except.bind, ran]

end Run

/-- A kernel run by one worker whose conditional branches are each followed, in their
    work-group, by an instruction of one of their target blocks: no hook faults, and at the
    end the aggregate holds, at each line, one boolean per conditional branch executed
    there, in order, true when control went to the block of operand 1; a line without
    one holds nothing. -/
theorem branch_outcomes_recorded (spaces : AddressSpaces) (name : String) (w : Nat)
    (events : List WorkerEvent) (system started : System)
    (wf : Phase.idle.follow events = some .idle) (resolve : BranchesResolve events)
    (begun : system.step spaces (.kernelBegin name) = .ok started) :
    ∃ after, system.run spaces (.kernelBegin name :: events.map (.worker w)) = .ok after ∧
      ∀ line, after.plugin.aggregate.branchOps.find? line =
        if outcomesAt line (branchOutcomes events) = [] then none
        else some (outcomesAt line (branchOutcomes events)) := by
  have fresh := step_kernelBegin_ok begun
  obtain ⟨after, ran, records⟩ := run_tracks spaces w events started .idle [] [] wf resolve
    ⟨by rw [fresh.1]; exact records_empty, fun _ => rfl, nofun, nofun⟩
  refine ⟨after, by simp [System.run, begun, bind, Except.bind, ran], ?_⟩
  simpa [expected, outcome_of_nextInstruction _ (nextInstruction_of_idle wf)] using records

theorem branch_outcomes_recorded_loop :
    let branch : Instruction :=
      ⟨.br, "br", [⟨false, "%cmp"⟩, ⟨true, "%loop"⟩, ⟨true, "%exit"⟩], 0, "", 12, "%loop", 0⟩
    let body : Instruction := ⟨.other 13, "add", [], 0, "", 11, "%loop", 1⟩
    let exit : Instruction := ⟨.other 1, "ret", [], 0, "", 14, "%exit", 0⟩
    let events : List WorkerEvent := [.workGroupBegin, .workItemBegin, .instructionExecuted body,
      .instructionExecuted branch, .instructionExecuted body, .instructionExecuted branch,
      .instructionExecuted exit, .workItemComplete, .workGroupComplete]
    Phase.idle.follow events = some .idle ∧ BranchesResolve events ∧
      branchOutcomes events = [(12, true), (12, false)] ∧
      ∃ after,
        System.initial.run ⟨0, 1, 2, 3⟩ (.kernelBegin "loop" :: events.map (.worker 0)) = .ok after ∧
        ∀ line, after.plugin.aggregate.branchOps.find? line =
          if outcomesAt line (branchOutcomes events) = [] then none
          else some (outcomesAt line (branchOutcomes events)) := by
  intro branch body exit events
  have wf : Phase.idle.follow events = some .idle := rfl
  have resolve : BranchesResolve events := by
    simp [events, BranchesResolve, Resolves, branchTargets, nextInstruction,
      Instruction.isConditionalBranch, Instruction.operand, branch, body, exit]
  exact ⟨wf, resolve, rfl, branch_outcomes_recorded _ "loop" 0 events System.initial _ wf resolve rfl⟩

end AiwcProof
