import Aiwc.Proof.MergeOrder

namespace AiwcProof

open AiwcModel

/-- A worker's hooks run on their own from `state`: the final state and the states its
    `workGroupComplete` hooks hand to the merge, in order. -/
def runLog (spaces : AddressSpaces) : WorkerState → List WorkerEvent → Except Fault (WorkerState × List WorkerState)
  | state, [] => .ok (state, [])
  | state, event :: events => do
    let next ← state.step spaces event
    (runLog spaces next events).map fun result =>
      (result.1, if event = .workGroupComplete then state :: result.2 else result.2)

section Logs

variable {spaces : AddressSpaces}

theorem runLog_cons {state final : WorkerState} {event : WorkerEvent} {events : List WorkerEvent}
    {log : List WorkerState} :
    runLog spaces state (event :: events) = .ok (final, log) ↔
      ∃ next rest, state.step spaces event = .ok next ∧ runLog spaces next events = .ok (final, rest) ∧
        log = if event = .workGroupComplete then state :: rest else rest := by
  constructor
  · intro ran
    simp only [runLog] at ran
    cases stepped : state.step spaces event with
    | error fault => simp [stepped, bind, Except.bind] at ran
    | ok next =>
      cases continued : runLog spaces next events with
      | error fault => simp [stepped, continued, bind, Except.bind, Except.map] at ran
      | ok result =>
        simp only [stepped, continued, bind, Except.bind, Except.map, Except.ok.injEq, Prod.mk.injEq] at ran
        exact ⟨next, result.2, rfl, by rw [← ran.1, continued], ran.2.symm⟩
  · rintro ⟨next, rest, stepped, continued, rfl⟩
    simp only [runLog, stepped, continued, bind, Except.bind, Except.map]

theorem runLog_run {state final : WorkerState} {events : List WorkerEvent} {log : List WorkerState}
    (ran : runLog spaces state events = .ok (final, log)) : state.run spaces events = .ok final := by
  induction events generalizing state log with
  | nil =>
    cases ran
    rfl
  | cons event rest ih =>
    obtain ⟨next, _, stepped, continued, -⟩ := runLog_cons.mp ran
    simp only [WorkerState.run, stepped, bind, Except.bind, ih continued]

theorem run_cons_of_step {system mid : System} {e : Event} {rest : List Event}
    (stepped : system.step spaces e = .ok mid) : system.run spaces (e :: rest) = mid.run spaces rest := by
  simp only [System.run, stepped, bind, Except.bind]

theorem runLog_of_run {body : List (Nat × WorkerEvent)} {system after : System}
    (ran : system.run spaces (body.map fun e => .worker e.1 e.2) = .ok after) :
    ∃ logs : Nat → List WorkerState,
      ∀ w, runLog spaces (system.workers w) (project w body) = .ok (after.workers w, logs w) := by
  induction body generalizing system with
  | nil =>
    cases ran
    exact ⟨fun _ => [], fun _ => rfl⟩
  | cons e rest ih =>
    obtain ⟨w, event⟩ := e
    obtain ⟨mid, stepped, continued⟩ := run_cons_ok ran
    obtain ⟨next, ok, workers, -⟩ := step_worker_ok stepped
    obtain ⟨logs, alone⟩ := ih continued
    refine ⟨Function.update logs w (if event = .workGroupComplete then system.workers w :: logs w else logs w),
      fun v => ?_⟩
    by_cases same : v = w
    · subst v
      have own := alone w
      rw [workers, Function.update_same] at own
      simpa [project_cons] using runLog_cons.mpr ⟨next, logs w, ok, own, rfl⟩
    · have other := alone v
      rw [workers, Function.update_noteq same] at other
      simpa [project_cons, Ne.symm same, Function.update_noteq same] using other

theorem flatMap_update_cons_perm {S : List Nat} (nodup : S.Nodup) {w : Nat} (member : w ∈ S)
    (logs : Nat → List WorkerState) (state : WorkerState) :
    (S.flatMap (Function.update logs w (state :: logs w))).Perm (state :: S.flatMap logs) := by
  induction S with
  | nil => exact absurd member (List.not_mem_nil w)
  | cons v S ih =>
    rw [List.nodup_cons] at nodup
    by_cases same : v = w
    · subst v
      have untouched : S.flatMap (Function.update logs w (state :: logs w)) = S.flatMap logs :=
        List.flatMap_congr fun u member => Function.update_noteq (ne_of_mem_of_not_mem member nodup.1) _ _
      simp [untouched]
    · have later := ih nodup.2 ((List.mem_cons.mp member).resolve_left (Ne.symm same))
      rw [List.flatMap_cons, List.flatMap_cons, Function.update_noteq same]
      exact (later.append_left _).trans List.perm_middle

theorem run_of_runLog {S : List Nat} (nodup : S.Nodup) {body : List (Nat × WorkerEvent)} {system : System}
    {finals : Nat → WorkerState} {logs : Nat → List WorkerState} (within : ∀ e ∈ body, e.1 ∈ S)
    (alone : ∀ w, runLog spaces (system.workers w) (project w body) = .ok (finals w, logs w)) :
    ∃ after, system.run spaces (body.map fun e => .worker e.1 e.2) = .ok after ∧ after.workers = finals ∧
      after.plugin.transfers = system.plugin.transfers ∧
      MergeEquiv after.plugin.aggregate ((S.flatMap logs).foldl Aggregate.merge system.plugin.aggregate) := by
  induction body generalizing system logs with
  | nil =>
    have done : ∀ w, system.workers w = finals w ∧ logs w = [] := fun w => by
      simpa [project, runLog] using alone w
    refine ⟨system, rfl, funext fun w => (done w).1, rfl, ?_⟩
    rw [List.flatMap_eq_nil_iff.mpr fun w _ => (done w).2]
    exact .refl _
  | cons e rest ih =>
    obtain ⟨w, event⟩ := e
    have own := alone w
    simp only [project_cons, if_true] at own
    obtain ⟨next, log, ok, continued, merged⟩ := runLog_cons.mp own
    have member : w ∈ S := within _ (List.mem_cons_self _ _)
    obtain ⟨mid, stepped, workers, aggregate, untouched⟩ : ∃ mid, system.step spaces (.worker w event) = .ok mid ∧
        mid.workers = Function.update system.workers w next ∧
        mid.plugin.aggregate = (if event = .workGroupComplete then
          system.plugin.aggregate.merge (system.workers w) else system.plugin.aggregate) ∧
        mid.plugin.transfers = system.plugin.transfers :=
      ⟨_, step_worker_eq ok, rfl, rfl, rfl⟩
    obtain ⟨after, ran, finals, transfers, equiv⟩ := @ih mid (Function.update logs w log)
      (fun e member => within e (List.mem_cons_of_mem _ member)) fun v => by
        rw [workers]
        by_cases same : v = w
        · subst v
          simpa using continued
        · simpa [project_cons, Ne.symm same, Function.update_noteq same] using alone v
    refine ⟨after, by rw [List.map_cons, run_cons_of_step stepped, ran], finals, transfers.trans untouched,
      equiv.trans ?_⟩
    rw [aggregate]
    by_cases complete : event = .workGroupComplete
    · rw [if_pos complete] at merged ⊢
      have reordered := flatMap_update_cons_perm nodup member (Function.update logs w log) (system.workers w)
      rw [Function.update_idem, Function.update_same, ← merged, Function.update_eq_self] at reordered
      exact foldl_merge_equiv reordered.symm (.refl _)
    · rw [if_neg complete] at merged ⊢
      rw [← merged, Function.update_eq_self]
      exact .refl _

end Logs

end AiwcProof
