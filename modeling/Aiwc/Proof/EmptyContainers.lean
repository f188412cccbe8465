import Aiwc.Proof.Statistics

namespace AiwcProof

open AiwcModel

section Outside

theorem next_outside_items {phase q : Phase} {event : WorkerEvent} (advance : phase.next event = some q)
    (outside : phase.running = 0) (notBegin : isItemBegin event = false) :
    q.running = 0 ∧ isBarrier event = false ∧ isInstruction event = false := by
  rcases phase with _ | _ | n <;> cases event <;> simp [Phase.next, Phase.running, isItemBegin] at advance outside notBegin <;>
    simp [← advance, Phase.running, isBarrier, isInstruction]

theorem follow_outside_items {phase q : Phase} {events : List WorkerEvent}
    (follow : phase.follow events = some q) (outside : phase.running = 0)
    (noItems : events.countP isItemBegin = 0) : events.countP isBarrier = 0 ∧ events.countP isInstruction = 0 := by
  induction events generalizing phase with
  | nil => exact ⟨rfl, rfl⟩
  | cons event rest ih =>
    obtain ⟨mid, advance, continues⟩ := follow_cons_some follow
    obtain ⟨restNone, notBegin⟩ : rest.countP isItemBegin = 0 ∧ isItemBegin event = false := by
      simpa [List.countP_cons] using noItems
    obtain ⟨stays, notBarrier, notInstruction⟩ := next_outside_items advance outside notBegin
    obtain ⟨barriers, instructions⟩ := ih continues stays restNone
    simp [List.countP_cons, notBarrier, notInstruction, barriers, instructions]

theorem hooks_without_items {body : List (Nat × WorkerEvent)} (wf : WellFormedBody body)
    (noItems : body.countP (isItemBegin ·.2) = 0) :
    body.countP (isBarrier ·.2) = 0 ∧ body.countP (isInstruction ·.2) = 0 := by
  rw [countP_project _ _ _ fun _ => mem_workers] at noItems
  have each := fun w member =>
    follow_outside_items (wf w) rfl (Finset.sum_eq_zero_iff.mp noItems w member)
  rw [countP_project _ _ _ fun _ => mem_workers, countP_project _ _ _ fun _ => mem_workers]
  exact ⟨Finset.sum_eq_zero fun w member => (each w member).1, Finset.sum_eq_zero fun w member => (each w member).2⟩

end Outside

section Containers

variable {spaces : AddressSpaces} {name : String} {body : List (Nat × WorkerEvent)} {system after : System}

theorem instructionsToBarrier_eq_nil_iff (wf : WellFormedBody body)
    (ran : system.run spaces (.kernelBegin name :: body.map fun e => .worker e.1 e.2) = .ok after) :
    after.plugin.aggregate.instructionsToBarrier = [] ↔ body.countP (isItemBegin ·.2) = 0 := by
  have total := (toBarrierTally spaces).invocation_total wf ran
  simp only [toBarrierTally, List.sum_map_add, sum_marked, ← items_balanced wf] at total
  rw [← List.length_eq_zero, total]
  exact ⟨fun none => by omega, fun noItems => by rw [noItems, (hooks_without_items wf noItems).1]⟩

theorem instructionsPerWorkitem_eq_nil_iff (wf : WellFormedBody body)
    (ran : system.run spaces (.kernelBegin name :: body.map fun e => .worker e.1 e.2) = .ok after) :
    after.plugin.aggregate.instructionsPerWorkitem = [] ↔ body.countP (isItemBegin ·.2) = 0 := by
  have total := (perItemTally spaces).invocation_total wf ran
  simp only [perItemTally, sum_marked, ← items_balanced wf] at total
  rw [← List.length_eq_zero, total]

end Containers

theorem kernelEndCounts_of_nil {agg : Aggregate} (empty : agg.instructionsToBarrier = []) :
    kernelEndCounts agg = .error (.emptyRange "m_instructionsToBarrier") := by
  obtain ⟨k, covered⟩ := coverage_significant ((sortDescending Prod.snd agg.computeOps.entries).map Prod.snd)
  simp only [kernelEndCounts, covered, empty, minElement, bind, Except.bind]

/-- An invocation in which no work-item runs, among them one with no work-group: at
    `kernelEnd` both per-item containers are empty, `*min_element` of the first is the
    dereference of its end, and the median would read the sorted copy at `size / 2 - 1`,
    which wraps to 2^64 - 1. -/
theorem kernelEnd_without_work_items (spaces : AddressSpaces) (name : String)
    (body : List (Nat × WorkerEvent)) (system before : System) (wf : WellFormedBody body)
    (noItems : body.countP (isItemBegin ·.2) = 0)
    (ran : system.run spaces (.kernelBegin name :: body.map fun e => .worker e.1 e.2) = .ok before) :
    before.plugin.aggregate.instructionsToBarrier = [] ∧ before.plugin.aggregate.instructionsPerWorkitem = [] ∧
      median before.plugin.aggregate.instructionsToBarrier = .error (.outOfRange (2 ^ 64 - 1)) ∧
      before.step spaces (.kernelEnd name) = .error (.emptyRange "m_instructionsToBarrier") := by
  have empty := (instructionsToBarrier_eq_nil_iff wf ran).mpr noItems
  refine ⟨empty, (instructionsPerWorkitem_eq_nil_iff wf ran).mpr noItems, by rw [empty]; rfl, ?_⟩
  rw [System.step, kernelEndCounts_of_nil empty]
  rfl

theorem kernelEnd_without_work_items_empty_group :
    ∃ before, System.initial.run ⟨0, 1, 2, 3⟩
        [.kernelBegin "k", .worker 0 .workGroupBegin, .worker 0 .workGroupComplete] = .ok before ∧
      before.plugin.aggregate.instructionsToBarrier = [] ∧ before.plugin.aggregate.instructionsPerWorkitem = [] ∧
      median before.plugin.aggregate.instructionsToBarrier = .error (.outOfRange (2 ^ 64 - 1)) ∧
      before.step ⟨0, 1, 2, 3⟩ (.kernelEnd "k") = .error (.emptyRange "m_instructionsToBarrier") := by
  obtain ⟨before, ran⟩ : ∃ before, System.initial.run ⟨0, 1, 2, 3⟩
      [.kernelBegin "k", .worker 0 .workGroupBegin, .worker 0 .workGroupComplete] = .ok before := ⟨_, rfl⟩
  exact ⟨before, ran, kernelEnd_without_work_items ⟨0, 1, 2, 3⟩ "k" [(0, .workGroupBegin), (0, .workGroupComplete)]
    .initial before (by decide) (by decide) ran⟩

end AiwcProof
