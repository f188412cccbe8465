import Mathlib
import Aiwc.Model.Process
import Aiwc.Proof.Transfers
import Aiwc.Proof.WorkItems

namespace AiwcProof

open AiwcModel

theorem writes_metrics (ops : List StreamOp) (format format' : StreamFormat) :
    (format.writes ops).map Prod.fst = (format'.writes ops).map Prod.fst := by
  induction ops generalizing format format' with
  | nil => rfl
  | cons op rest ih =>
    cases op with
    | float metric => exact congrArg (metric :: ·) (ih _ _)
    | _ => exact ih _ _

theorem initial_apply_kernelEndStream : StreamFormat.initial.apply kernelEndStream = ⟨true, 2⟩ := rfl

theorem writes_kernelEndStream :
    ((StreamFormat.initial.writes kernelEndStream).map Prod.snd).take 9 = List.replicate 9 ⟨false, 2⟩ ∧
      ((StreamFormat.writes ⟨true, 2⟩ kernelEndStream).map Prod.snd).take 9 = List.replicate 9 ⟨true, 2⟩ :=
  ⟨rfl, rfl⟩

section Runs

variable {R : Type} [LinearOrderedField R] (log2 sqrt : R → R) (spaces : AddressSpaces)

theorem Process.run_append (first second : List Event) (process : Process R) :
    process.run log2 sqrt spaces (first ++ second) =
      (process.run log2 sqrt spaces first).bind (·.run log2 sqrt spaces second) := by
  induction first generalizing process with
  | nil => rfl
  | cons event rest ih =>
    simp only [List.cons_append, Process.run, bind, Except.bind]
    cases process.step log2 sqrt spaces event with
    | error fault => rfl
    | ok next => exact ih next

theorem Process.run_hooks (events : List Event) (hooks : ∀ e ∈ events, ∀ name, e ≠ .kernelEnd name)
    (process : Process R) :
    process.run log2 sqrt spaces events =
      (process.system.run spaces events).bind fun system => .ok { process with system } := by
  induction events generalizing process with
  | nil => rfl
  | cons event rest ih =>
    have step : process.step log2 sqrt spaces event =
        (process.system.step spaces event).bind fun system => .ok { process with system } := by
      cases event with
      | kernelEnd name => exact absurd rfl (hooks _ (List.mem_cons_self _ _) name)
      | _ => rfl
    simp only [Process.run, System.run, bind, step]
    cases process.system.step spaces event with
    | error fault => rfl
    | ok system => exact ih (fun e member => hooks e (List.mem_cons_of_mem _ member)) _

theorem Process.run_invocation (name : String) (body : List (Nat × WorkerEvent)) (process next : Process R) :
    process.run log2 sqrt spaces (invocation name body) = .ok next ↔
      ∃ system counts histories,
        process.system.run spaces (.kernelBegin name :: body.map fun e => .worker e.1 e.2) = .ok system ∧
        kernelEndCounts system.plugin.aggregate = .ok counts ∧ branchHistories system.plugin.aggregate = .ok histories ∧
        next = ⟨{ system with plugin := { system.plugin with aggregate := system.plugin.aggregate.resetAfterReport } },
          process.cout.apply kernelEndStream, process.output ++ (process.cout.writes kernelEndStream).map fun write =>
            ⟨write.1, write.1.value (report log2 sqrt system.plugin.aggregate counts)
              (branchEntropy log2 histories), write.2⟩⟩ := by
  have hooks : ∀ e ∈ .kernelBegin name :: body.map (fun e => Event.worker e.1 e.2), ∀ name', e ≠ .kernelEnd name' := by
    rintro _ member _ rfl
    simp at member
  rw [invocation, Process.run_append, Process.run_hooks log2 sqrt spaces _ hooks]
  cases process.system.run spaces (.kernelBegin name :: body.map fun e => .worker e.1 e.2) with
  | error fault => simp [bind, Except.bind]
  | ok system =>
    simp only [Except.bind, Process.run, Process.step, kernelEnd, kernelEndReport, System.step, bind]
    cases counted : kernelEndCounts system.plugin.aggregate <;> cases found : branchHistories system.plugin.aggregate <;>
      simp [counted, found, Except.bind, pure, Except.pure, eq_comm]

end Runs

theorem run_workers_transfers (spaces : AddressSpaces) (rest : List (Nat × WorkerEvent)) (system after : System)
    (ran : system.run spaces (rest.map fun e => .worker e.1 e.2) = .ok after) :
    after.plugin.transfers = system.plugin.transfers := by
  induction rest generalizing system with
  | nil => cases ran; rfl
  | cons e rest ih =>
    obtain ⟨mid, stepped, later⟩ := run_cons_ok ran
    rw [ih mid later, step_worker_transfers stepped]

theorem rerun_invocation (spaces : AddressSpaces) (name : String) (body : List (Nat × WorkerEvent))
    (wf : WellFormedBody body) (system : System)
    (ran : System.initial.run spaces (.kernelBegin name :: body.map fun e => .worker e.1 e.2) = .ok system) :
    ∃ again, System.run spaces { system with plugin := { system.plugin with
      aggregate := system.plugin.aggregate.resetAfterReport } } (.kernelBegin name :: body.map fun e => .worker e.1 e.2) =
        .ok again ∧
      again.plugin.aggregate = system.plugin.aggregate := by
  obtain ⟨started, begun, rest⟩ := run_cons_ok ran
  obtain rfl : started = ⟨⟨.empty, { TransferLog.initial with lastKernelName := name }⟩, fun _ => .initial⟩ :=
    Except.ok.inj (begun.symm.trans rfl)
  have kept := run_workers_transfers spaces body _ system rest
  have begunAgain : System.step spaces { system with plugin := { system.plugin with
      aggregate := system.plugin.aggregate.resetAfterReport } } (.kernelBegin name) =
        .ok ⟨⟨.empty, { TransferLog.initial with lastKernelName := name }⟩, system.workers⟩ := by
    simp only [System.step, Plugin.kernelBegin, kept]
    rfl
  obtain ⟨again, ranAgain, same⟩ := run_agree body ⟨⟨.empty, { TransferLog.initial with lastKernelName := name }⟩,
    fun _ => .initial⟩ ⟨⟨.empty, { TransferLog.initial with lastKernelName := name }⟩, system.workers⟩ system
    (fun _ => .idle) wf rfl (fun _ => trivial) rest
  exact ⟨again, by simp only [System.run, begunAgain, bind, Except.bind, ranAgain], same⟩

theorem metrics_written {R : Type} [LinearOrderedField R] (format : StreamFormat) (report : Report R)
    (entropy : BranchEntropy R) :
    (((format.writes kernelEndStream).map fun write => (⟨write.1, write.1.value report entropy, write.2⟩ : Written R)).map
      fun write => (write.metric, write.value)) =
      ((StreamFormat.initial.writes kernelEndStream).map Prod.fst).map fun metric => (metric, metric.value report entropy) := by
  rw [← writes_metrics kernelEndStream format, List.map_map, List.map_map]
  rfl

theorem formats_written {R : Type} (format : StreamFormat) (value : FloatMetric → R) :
    ((format.writes kernelEndStream).map fun write => (⟨write.1, value write.1, write.2⟩ : Written R)).map (·.format) =
      (format.writes kernelEndStream).map Prod.snd := by
  rw [List.map_map]
  rfl

/-- Two invocations of the same well-formed hooks, one after the other from the start of the
    program: both `kernelEnd`s return and write the same numbers, but `std::fixed`, which the
    local entropy table of the first sets, is still set at the second. So the nine values the
    first report writes before that table are formatted without it, and the second report's
    with it. -/
theorem repeated_invocation_reformats {R : Type} [LinearOrderedField R] (log2 sqrt : R → R) (spaces : AddressSpaces)
    (name : String) (body : List (Nat × WorkerEvent)) (wf : WellFormedBody body) (first : Process R)
    (ran : Process.initial.run log2 sqrt spaces (invocation name body) = .ok first) :
    ∃ second, first.run log2 sqrt spaces (invocation name body) = .ok second ∧
      ∃ written : List (Written R), second.output = first.output ++ written ∧
        written.map (fun write => (write.metric, write.value)) = first.output.map (fun write => (write.metric, write.value)) ∧
        (first.output.map (·.format)).take 9 = List.replicate 9 ⟨false, 2⟩ ∧
        (written.map (·.format)).take 9 = List.replicate 9 ⟨true, 2⟩ := by
  obtain ⟨system, counts, histories, ranSystem, counted, found, rfl⟩ :=
    (Process.run_invocation log2 sqrt spaces name body _ _).mp ran
  obtain ⟨again, ranAgain, same⟩ := rerun_invocation spaces name body wf system ranSystem
  refine ⟨_, (Process.run_invocation log2 sqrt spaces name body _ _).mpr
    ⟨again, counts, histories, ranAgain, same ▸ counted, same ▸ found, rfl⟩, _, rfl, ?_, ?_, ?_⟩
  · simp only [Process.initial, List.nil_append, same, metrics_written]
  · simp only [Process.initial, List.nil_append, formats_written, writes_kernelEndStream.1]
  · simp only [Process.initial, initial_apply_kernelEndStream, formats_written, writes_kernelEndStream.2]

theorem repeated_invocation_reformats_one_item :
    let load : Instruction := ⟨.load, "load", [], 1, "p", 3, "%entry", 1⟩
    let body : List (Nat × WorkerEvent) := [(0, .workGroupBegin), (0, .workItemBegin),
      (0, .instructionExecuted load), (0, .memoryLoad 1 64), (0, .workItemComplete), (0, .workGroupComplete)]
    WellFormedBody body ∧ ∃ first, Process.initial.run (id : ℚ → ℚ) id ⟨0, 1, 2, 3⟩ (invocation "k" body) = .ok first ∧
      ∃ second, first.run id id ⟨0, 1, 2, 3⟩ (invocation "k" body) = .ok second ∧
        ∃ written : List (Written ℚ), second.output = first.output ++ written ∧
          written.map (fun write => (write.metric, write.value)) =
            first.output.map (fun write => (write.metric, write.value)) ∧
          (first.output.map (·.format)).take 9 = List.replicate 9 ⟨false, 2⟩ ∧
          (written.map (·.format)).take 9 = List.replicate 9 ⟨true, 2⟩ := by
  intro load body
  obtain ⟨first, ran⟩ : ∃ first, Process.initial.run (id : ℚ → ℚ) id ⟨0, 1, 2, 3⟩ (invocation "k" body) = .ok first := by
    unfold body load
    exact ⟨_, rfl⟩
  exact ⟨by decide, first, ran, repeated_invocation_reformats id id _ "k" body (by decide) first ran⟩

end AiwcProof
