import Aiwc.Proof.Counting

namespace AiwcProof

open AiwcModel

/-- Two work-items of one work-group with one barrier, interleaved as the host runs them:
    each does four instructions, reaches the barrier, and after the release does two more.
    `instruction_count` is reset at the release, but `workitem_instruction_count` is shared
    by the worker's work-items and only reset at `workItemBegin`: the second work-item's six
    instructions are pushed as eight. -/
theorem interleaved_items_per_workitem :
    let add : Instruction := ⟨.other 13, "add", [], 0, "", 0, "%entry", 1⟩
    (WorkerState.initial.run ⟨0, 1, 2, 3⟩
      ([.workGroupBegin, .workItemBegin] ++ List.replicate 4 (.instructionExecuted add) ++
        [.workItemBarrier, .workItemBegin] ++ List.replicate 4 (.instructionExecuted add) ++
        [.workItemBarrier, .workItemClearBarrier] ++ List.replicate 2 (.instructionExecuted add) ++
        [.workItemComplete, .workItemClearBarrier] ++ List.replicate 2 (.instructionExecuted add) ++
        [.workItemComplete])).map
      (fun state => (state.instructionsBetweenBarriers, state.instructionsPerWorkitem)) =
      .ok ([4, 4, 2, 2], [6, 8]) := rfl

/-- A worker state with the two counters that only `workItemBegin` resets set aside. -/
def forgetItemCounters (state : WorkerState) : WorkerState :=
  { state with workitemInstructionCount := 0, opsBetweenLoadOrStore := 0 }

/-- How far two worker states must agree, at each phase, for the rest of a work-group to
    merge the same contribution from both. -/
def Agree : Phase → WorkerState → WorkerState → Prop
  | .idle, _, _ => True
  | .inGroup 0, s, t => forgetItemCounters s = forgetItemCounters t
  | .inGroup (_ + 1), s, t => s = t

theorem agree_self (phase : Phase) (state : WorkerState) : Agree phase state state := by
  rcases phase with _ | _ | n <;> trivial

theorem Agree.forget {n : Nat} {s t : WorkerState} (agree : Agree (.inGroup n) s t) :
    forgetItemCounters s = forgetItemCounters t := by
  cases n with
  | zero => exact agree
  | succ n => exact congrArg forgetItemCounters agree

theorem workGroupBegin_agree (s t : WorkerState) :
    forgetItemCounters s.workGroupBegin = forgetItemCounters t.workGroupBegin := rfl

theorem workItemBegin_forget (s : WorkerState) :
    s.workItemBegin = (forgetItemCounters s).workItemBegin := rfl

theorem merge_forget (agg : Aggregate) (s : WorkerState) : agg.merge s = agg.merge (forgetItemCounters s) :=
  rfl

theorem next_itemBegin {phase q : Phase} (advance : phase.next .workItemBegin = some q) :
    ∃ n, phase = .inGroup n ∧ q = .inGroup (n + 1) := by
  rcases phase with _ | _ | n <;> simp [Phase.next] at advance
  exacts [⟨0, rfl, advance.symm⟩, ⟨n + 1, rfl, advance.symm⟩]

theorem next_in_item {phase q : Phase} {event : WorkerEvent} (notBegin : event ≠ .workGroupBegin)
    (notComplete : event ≠ .workGroupComplete) (notItem : event ≠ .workItemBegin)
    (advance : phase.next event = some q) : ∃ n, phase = .inGroup (n + 1) := by
  rcases phase with _ | _ | n <;> cases event <;> simp [Phase.next] at advance notBegin notComplete notItem
  all_goals exact ⟨n, rfl⟩

variable {spaces : AddressSpaces}

theorem step_agree {a b a' : System} {w : Nat} {event : WorkerEvent} {phase q : Phase}
    (advance : phase.next event = some q) (sameAggregate : a.plugin.aggregate = b.plugin.aggregate)
    (agree : Agree phase (a.workers w) (b.workers w)) (ok : a.step spaces (.worker w event) = .ok a') :
    ∃ b', b.step spaces (.worker w event) = .ok b' ∧ a'.plugin.aggregate = b'.plugin.aggregate ∧
      Agree q (a'.workers w) (b'.workers w) := by
  obtain ⟨next, stepped, workers, aggregate⟩ := step_worker_ok ok
  rw [workers, aggregate, Function.update_same]
  by_cases isBegin : event = .workGroupBegin
  · subst event
    obtain ⟨rfl, rfl⟩ := next_begin advance
    simp only [WorkerState.step, Except.ok.injEq] at stepped
    refine ⟨_, step_worker_eq rfl, by simp [sameAggregate], ?_⟩
    simpa [← stepped, Agree] using workGroupBegin_agree (a.workers w) (b.workers w)
  · by_cases isComplete : event = .workGroupComplete
    · subst event
      obtain ⟨rfl, rfl⟩ := next_complete advance
      simp only [Agree] at agree
      refine ⟨_, step_worker_eq rfl, ?_, trivial⟩
      simp [sameAggregate, merge_forget _ (a.workers w), merge_forget _ (b.workers w), agree]
    · by_cases isItem : event = .workItemBegin
      · subst event
        obtain ⟨n, rfl, rfl⟩ := next_itemBegin advance
        simp only [WorkerState.step, Except.ok.injEq] at stepped
        refine ⟨_, step_worker_eq rfl, by simp [sameAggregate], ?_⟩
        simp [← stepped, Agree, workItemBegin_forget (a.workers w), workItemBegin_forget (b.workers w),
          agree.forget]
      · obtain ⟨n, rfl⟩ := next_in_item isBegin isComplete isItem advance
        simp only [Agree] at agree
        rw [agree] at stepped
        refine ⟨_, step_worker_eq stepped, by simp [sameAggregate, isComplete], ?_⟩
        simpa using agree_self q next

theorem run_agree (rest : List (Nat × WorkerEvent)) (a b after : System) (phases : Nat → Phase)
    (follow : ∀ w, (phases w).follow (project w rest) = some .idle)
    (sameAggregate : a.plugin.aggregate = b.plugin.aggregate)
    (agree : ∀ w, Agree (phases w) (a.workers w) (b.workers w))
    (ran : a.run spaces (rest.map fun e => .worker e.1 e.2) = .ok after) :
    ∃ fresh, b.run spaces (rest.map fun e => .worker e.1 e.2) = .ok fresh ∧
      fresh.plugin.aggregate = after.plugin.aggregate := by
  induction rest generalizing a b phases with
  | nil =>
    cases ran
    exact ⟨b, rfl, sameAggregate.symm⟩
  | cons e rest ih =>
    obtain ⟨w, event⟩ := e
    obtain ⟨a', stepped, rest_ran⟩ := run_cons_ok ran
    obtain ⟨q, advance, continues⟩ := follow_cons_update follow
    obtain ⟨b', bStepped, sameAfter, agreeAt⟩ := step_agree advance sameAggregate (agree w) stepped
    obtain ⟨_, _, aWorkers, _⟩ := step_worker_ok stepped
    obtain ⟨_, _, bWorkers, _⟩ := step_worker_ok bStepped
    obtain ⟨fresh, freshRan, same⟩ := ih a' b' (Function.update phases w q) continues sameAfter
      (fun v => by
        by_cases same : v = w
        · subst v
          simpa using agreeAt
        · simpa [aWorkers, bWorkers, Function.update_noteq same] using agree v)
      rest_ran
    refine ⟨fresh, ?_, same⟩
    simp [System.run, bStepped, bind, Except.bind, freshRan]

end AiwcProof
