import Aiwc.Model.Counts

namespace AiwcModel

/-- The hooks the host fires, a worker's tagged with the worker thread that fires it. -/
inductive Event where
  | kernelBegin (name : String)
  | kernelEnd (name : String)
  | hostMemoryLoad
  | hostMemoryStore
  | worker (id : Nat) (event : WorkerEvent)
  deriving DecidableEq, Repr

/-- The plugin instance and the thread-local state of every worker thread. -/
structure System where
  plugin : Plugin
  workers : Nat → WorkerState

namespace System

def initial : System := ⟨.initial, fun _ => .initial⟩

/-- One hook. A worker's hooks touch its own `m_state` only, except `workGroupComplete`,
    whose merge runs under the plugin's mutex; so firing hooks one at a time in any
    interleaving is what the threads can do. -/
def step (spaces : AddressSpaces) (system : System) : Event → Except Fault System
  | .kernelBegin name => do
    let plugin ← system.plugin.kernelBegin name
    pure { system with plugin }
  | .kernelEnd _ => do
    let _ ← kernelEndCounts system.plugin.aggregate
    let _ ← branchHistories system.plugin.aggregate
    pure { system with plugin := { system.plugin with aggregate := system.plugin.aggregate.resetAfterReport } }
  | .hostMemoryLoad =>
    .ok { system with plugin := { system.plugin with transfers := system.plugin.transfers.hostMemoryLoad } }
  | .hostMemoryStore =>
    .ok { system with plugin := { system.plugin with transfers := system.plugin.transfers.hostMemoryStore } }
  | .worker id event => do
    let next ← (system.workers id).step spaces event
    let aggregate := if event = .workGroupComplete then system.plugin.aggregate.merge (system.workers id)
      else system.plugin.aggregate
    pure ⟨{ system.plugin with aggregate }, Function.update system.workers id next⟩

def run (spaces : AddressSpaces) (system : System) : List Event → Except Fault System
  | [] => .ok system
  | event :: events => do
    let next ← system.step spaces event
    next.run spaces events

end System

/-- Where a worker is in the shape that a well-formed invocation gives its hooks: outside a
    work-group, or inside one with `running` work-items begun and not yet completed. -/
inductive Phase where
  | idle
  | inGroup (running : Nat)
  deriving DecidableEq, Repr

/-- Work-groups one after another; inside one, work-items that begin and complete, and every
    instruction, memory and barrier hook while a work-item is running. A work-item that
    reaches a barrier stays open while the host runs the group's other work-items up to it,
    so the work-items of a group may interleave. -/
def Phase.next : Phase → WorkerEvent → Option Phase
  | .idle, .workGroupBegin => some (.inGroup 0)
  | .inGroup 0, .workGroupComplete => some .idle
  | .inGroup n, .workItemBegin => some (.inGroup (n + 1))
  | .inGroup (n + 1), .workItemComplete => some (.inGroup n)
  | .inGroup (n + 1), .workItemBarrier => some (.inGroup (n + 1))
  | .inGroup (n + 1), .workItemClearBarrier => some (.inGroup (n + 1))
  | .inGroup (n + 1), .instructionExecuted _ => some (.inGroup (n + 1))
  | .inGroup (n + 1), .memoryLoad _ _ => some (.inGroup (n + 1))
  | .inGroup (n + 1), .memoryStore _ _ => some (.inGroup (n + 1))
  | .inGroup (n + 1), .memoryAtomicLoad _ _ => some (.inGroup (n + 1))
  | .inGroup (n + 1), .memoryAtomicStore _ _ => some (.inGroup (n + 1))
  | _, _ => none

def Phase.running : Phase → Nat
  | .idle => 0
  | .inGroup n => n

def Phase.follow : Phase → List WorkerEvent → Option Phase
  | phase, [] => some phase
  | phase, event :: events => (phase.next event).bind fun next => next.follow events

/-- The hooks of worker `w` among an invocation's, in order. -/
def project (w : Nat) (body : List (Nat × WorkerEvent)) : List WorkerEvent :=
  body.filterMap fun event => if event.1 = w then some event.2 else none

/-- Every worker runs whole work-groups; the workers' hooks interleave in any way. -/
def WellFormedBody (body : List (Nat × WorkerEvent)) : Prop :=
  ∀ w, Phase.idle.follow (project w body) = some .idle

/-- `kernelBegin`, the workers' hooks, `kernelEnd`. -/
def invocation (name : String) (body : List (Nat × WorkerEvent)) : List Event :=
  .kernelBegin name :: body.map (fun event => .worker event.1 event.2) ++ [.kernelEnd name]

theorem project_of_absent {w : Nat} {body : List (Nat × WorkerEvent)} (absent : w ∉ body.map Prod.fst) :
    project w body = [] := by
  induction body with
  | nil => rfl
  | cons event rest ih =>
    simp only [List.map_cons, List.mem_cons, not_or] at absent
    simp [project, Ne.symm absent.1, ← ih absent.2, project]

theorem wellFormedBody_iff (body : List (Nat × WorkerEvent)) :
    WellFormedBody body ↔ ∀ w ∈ body.map Prod.fst, Phase.idle.follow (project w body) = some .idle := by
  refine ⟨fun wf w _ => wf w, fun wf w => ?_⟩
  by_cases present : w ∈ body.map Prod.fst
  · exact wf w present
  · rw [project_of_absent present]
    rfl

instance : DecidablePred WellFormedBody := fun body =>
  decidable_of_iff _ (wellFormedBody_iff body).symm

end AiwcModel
