import Aiwc.Proof.Hooks

namespace AiwcProof

open AiwcModel

section Events

variable {spaces : AddressSpaces} {system mid after : System} {w : Nat} {event : WorkerEvent}
  {phase q : Phase}

@[simp] theorem project_cons (v : Nat) (e : Nat × WorkerEvent) (rest : List (Nat × WorkerEvent)) :
    project v (e :: rest) = if e.1 = v then e.2 :: project v rest else project v rest := by
  by_cases same : e.1 = v <;> simp [project, same]

theorem mem_workers {body : List (Nat × WorkerEvent)} {e : Nat × WorkerEvent} (member : e ∈ body) :
    e.1 ∈ (body.map Prod.fst).toFinset :=
  List.mem_toFinset.mpr (List.mem_map_of_mem _ member)

theorem run_cons_ok {e : Event} {rest : List Event} (ran : system.run spaces (e :: rest) = .ok after) :
    ∃ mid, system.step spaces e = .ok mid ∧ mid.run spaces rest = .ok after := by
  simp only [System.run] at ran
  cases stepped : system.step spaces e with
  | error fault => simp [stepped, bind, Except.bind] at ran
  | ok mid => exact ⟨mid, rfl, by simpa [stepped, bind, Except.bind] using ran⟩

theorem step_worker_ok (ok : system.step spaces (.worker w event) = .ok mid) :
    ∃ next, (system.workers w).step spaces event = .ok next ∧
      mid.workers = Function.update system.workers w next ∧
      mid.plugin.aggregate = if event = .workGroupComplete
        then system.plugin.aggregate.merge (system.workers w) else system.plugin.aggregate := by
  simp only [System.step] at ok
  cases stepped : (system.workers w).step spaces event with
  | error fault => simp [stepped, bind, Except.bind] at ok
  | ok next =>
    simp only [stepped, bind, Except.bind, pure, Except.pure, Except.ok.injEq] at ok
    exact ⟨next, rfl, by rw [← ok], by rw [← ok]⟩

theorem step_worker_eq {next : WorkerState} (ok : (system.workers w).step spaces event = .ok next) :
    system.step spaces (.worker w event) = .ok ⟨{ system.plugin with
      aggregate := if event = .workGroupComplete then system.plugin.aggregate.merge (system.workers w)
        else system.plugin.aggregate }, Function.update system.workers w next⟩ := by
  simp only [System.step, ok]
  rfl

theorem step_kernelBegin_ok {name : String} (ok : system.step spaces (.kernelBegin name) = .ok mid) :
    mid.plugin.aggregate = .empty ∧ mid.workers = system.workers := by
  simp only [System.step, Plugin.kernelBegin] at ok
  cases relabelled : system.plugin.transfers.kernelBegin name with
  | error fault => simp [relabelled, bind, Except.bind] at ok
  | ok transfers =>
    simp only [relabelled, bind, Except.bind, pure, Except.pure, Except.ok.injEq] at ok
    exact ⟨by rw [← ok], by rw [← ok]⟩

theorem follow_cons_some (follow : phase.follow (event :: rest) = some q) :
    ∃ mid, phase.next event = some mid ∧ mid.follow rest = some q := by
  simp only [Phase.follow] at follow
  cases advance : phase.next event with
  | none => simp [advance] at follow
  | some mid => exact ⟨mid, rfl, by simpa [advance] using follow⟩

theorem next_begin (advance : phase.next .workGroupBegin = some q) : phase = .idle ∧ q = .inGroup 0 := by
  rcases phase with _ | _ | n <;> simp [Phase.next] at advance
  exact ⟨rfl, advance.symm⟩

theorem next_complete (advance : phase.next .workGroupComplete = some q) :
    phase = .inGroup 0 ∧ q = .idle := by
  rcases phase with _ | _ | n <;> simp [Phase.next] at advance
  exact ⟨rfl, advance.symm⟩

theorem next_inside (notBegin : event ≠ .workGroupBegin) (notComplete : event ≠ .workGroupComplete)
    (advance : phase.next event = some q) : phase ≠ .idle ∧ q ≠ .idle := by
  rcases phase with _ | _ | n <;> cases event <;> simp [Phase.next] at advance notBegin notComplete <;>
    simp [← advance]

theorem follow_nil_idle (follow : phase.follow [] = some .idle) : phase = .idle := by
  simpa [Phase.follow] using follow

theorem follow_cons_update {phases : Nat → Phase} {rest : List (Nat × WorkerEvent)}
    (follow : ∀ v, (phases v).follow (project v ((w, event) :: rest)) = some .idle) :
    ∃ q, (phases w).next event = some q ∧
      ∀ v, (Function.update phases w q v).follow (project v rest) = some .idle := by
  obtain ⟨q, advance, continues⟩ := follow_cons_some (by simpa using follow w)
  refine ⟨q, advance, fun v => ?_⟩
  by_cases same : v = w
  · subst v
    simpa using continues
  · simpa [Function.update_noteq same, Ne.symm same] using follow v

end Events

theorem sum_update {S : Finset Nat} {f g : Nat → Nat} {w : Nat} (member : w ∈ S)
    (same : ∀ v, v ≠ w → g v = f v) : ∑ v in S, g v + f w = ∑ v in S, f v + g w := by
  have others : ∑ v in S.erase w, g v = ∑ v in S.erase w, f v :=
    Finset.sum_congr rfl fun v member => same v (Finset.ne_of_mem_erase member)
  rw [← Finset.add_sum_erase S f member, ← Finset.add_sum_erase S g member, others]
  omega

/-- A quantity of the worker state and of the aggregate that every hook inside a work-group
    raises by the hook's weight, that `workGroupBegin` zeroes and that the merge of
    `workGroupComplete` adds into the aggregate. -/
structure Tally (spaces : AddressSpaces) where
  worker : WorkerState → Nat
  aggregate : Aggregate → Nat
  weight : WorkerEvent → Nat
  merge : ∀ (agg : Aggregate) (state : WorkerState), aggregate (agg.merge state) = aggregate agg + worker state
  begin : ∀ state : WorkerState, worker state.workGroupBegin = 0
  empty : aggregate .empty = 0
  hook : ∀ (state : WorkerState) (event : WorkerEvent) (next : WorkerState),
    event ≠ .workGroupBegin → event ≠ .workGroupComplete →
    state.step spaces event = .ok next → worker next = worker state + weight event
  weight_begin : weight .workGroupBegin = 0
  weight_complete : weight .workGroupComplete = 0

namespace Tally

variable {spaces : AddressSpaces} (t : Tally spaces)

/-- What a worker holds that the aggregate has not received: nothing outside a work-group. -/
def pending (phase : Phase) (state : WorkerState) : Nat := if phase = .idle then 0 else t.worker state

theorem step_balance {system mid : System} {w : Nat} {event : WorkerEvent} {phase q : Phase}
    (advance : phase.next event = some q) (ok : system.step spaces (.worker w event) = .ok mid) :
    t.aggregate mid.plugin.aggregate + t.pending q (mid.workers w) =
      t.aggregate system.plugin.aggregate + t.pending phase (system.workers w) + t.weight event := by
  obtain ⟨next, stepped, workers, aggregate⟩ := step_worker_ok ok
  rw [workers, aggregate, Function.update_same]
  by_cases isBegin : event = .workGroupBegin
  · subst event
    obtain ⟨rfl, rfl⟩ := next_begin advance
    simp only [WorkerState.step, Except.ok.injEq] at stepped
    simp [pending, ← stepped, t.begin, t.weight_begin]
  · by_cases isComplete : event = .workGroupComplete
    · subst event
      obtain ⟨rfl, rfl⟩ := next_complete advance
      simp [pending, t.merge, t.weight_complete]
    · obtain ⟨opened, stays⟩ := next_inside isBegin isComplete advance
      simp [pending, opened, stays, isComplete, t.hook _ _ _ isBegin isComplete stepped]
      omega

theorem run_balance (S : Finset Nat) (rest : List (Nat × WorkerEvent)) (system after : System)
    (phases : Nat → Phase) (follow : ∀ w, (phases w).follow (project w rest) = some .idle)
    (opened : ∀ w, phases w ≠ .idle → w ∈ S) (within : ∀ e ∈ rest, e.1 ∈ S)
    (ran : system.run spaces (rest.map fun e => .worker e.1 e.2) = .ok after) :
    t.aggregate after.plugin.aggregate =
      t.aggregate system.plugin.aggregate + ∑ w in S, t.pending (phases w) (system.workers w) +
        (rest.map fun e => t.weight e.2).sum := by
  induction rest generalizing system phases with
  | nil =>
    cases ran
    have idle : ∀ w, phases w = .idle := fun w => follow_nil_idle (follow w)
    simp [pending, idle]
  | cons e rest ih =>
    obtain ⟨w, event⟩ := e
    obtain ⟨mid, stepped, rest_ran⟩ := run_cons_ok ran
    obtain ⟨q, advance, continues⟩ := follow_cons_update follow
    have member : w ∈ S := within _ (List.mem_cons_self _ _)
    obtain ⟨next, _, workers, _⟩ := step_worker_ok stepped
    have later := ih mid (Function.update phases w q) continues
      (fun v active => by
        by_cases same : v = w
        · exact same ▸ member
        · exact opened v (by simpa [Function.update_noteq same] using active))
      (fun e member => within e (List.mem_cons_of_mem _ member)) rest_ran
    have moved := t.step_balance advance stepped
    dsimp only at moved
    have others := sum_update (f := fun v => t.pending (phases v) (system.workers v))
      (g := fun v => t.pending (Function.update phases w q v) (mid.workers v)) member
      (fun v same => by simp [workers, Function.update_noteq same])
    simp only [Function.update_same] at others
    simp only [List.map_cons, List.sum_cons]
    omega

theorem invocation_total {name : String} {body : List (Nat × WorkerEvent)} {system after : System}
    (wf : WellFormedBody body)
    (ran : system.run spaces (.kernelBegin name :: body.map fun e => .worker e.1 e.2) = .ok after) :
    t.aggregate after.plugin.aggregate = (body.map fun e => t.weight e.2).sum := by
  obtain ⟨started, begun, rest_ran⟩ := run_cons_ok ran
  obtain ⟨cleared, _⟩ := step_kernelBegin_ok begun
  have total := t.run_balance (body.map Prod.fst).toFinset body started after (fun _ => .idle)
    wf (fun _ active => absurd rfl active) (fun _ => mem_workers) rest_ran
  simpa [cleared, t.empty, pending] using total

end Tally

def isInstruction : WorkerEvent → Bool
  | .instructionExecuted _ => true
  | _ => false

def isItemBegin : WorkerEvent → Bool
  | .workItemBegin => true
  | _ => false

def isItemComplete : WorkerEvent → Bool
  | .workItemComplete => true
  | _ => false

def isBarrier : WorkerEvent → Bool
  | .workItemBarrier => true
  | _ => false

/-- `memoryLoad` or `memoryStore` of a region outside `AddrSpacePrivate`. -/
def plainAccess (spaces : AddressSpaces) : WorkerEvent → Bool
  | .memoryLoad space _ | .memoryStore space _ => space ≠ spaces.addrSpacePrivate
  | _ => false

/-- `memoryAtomicLoad` or `memoryAtomicStore` of a region whose address space is not `0`. -/
def atomicAccess : WorkerEvent → Bool
  | .memoryAtomicLoad space _ | .memoryAtomicStore space _ => space ≠ 0
  | _ => false

section Hooks

variable {spaces : AddressSpaces} {state next : WorkerState} {event : WorkerEvent}

theorem recordAddress_eq (excluded space address : Nat) (state : WorkerState) :
    WorkerState.recordAddress excluded space address state =
      { state with memoryOps := state.memoryOps ++ if space ≠ excluded then [address] else [] } := by
  by_cases kept : space = excluded <;> simp [WorkerState.recordAddress, kept]

theorem hook_counts (notBegin : event ≠ .workGroupBegin) (notComplete : event ≠ .workGroupComplete)
    (ok : state.step spaces event = .ok next) :
    next.computeOps.valueSum =
      state.computeOps.valueSum + (if isInstruction event then 1 else 0) ∧
    next.instructionWidth.valueSum =
      state.instructionWidth.valueSum + (if isInstruction event then 1 else 0) ∧
    next.threadsInvoked = state.threadsInvoked + (if isItemBegin event then 1 else 0) ∧
    next.instructionsPerWorkitem.length =
      state.instructionsPerWorkitem.length + (if isItemComplete event then 1 else 0) ∧
    next.instructionsBetweenBarriers.length = state.instructionsBetweenBarriers.length +
      (if isBarrier event then 1 else 0) + (if isItemComplete event then 1 else 0) ∧
    next.barriersHit = state.barriersHit + (if isBarrier event then 1 else 0) ∧
    next.memoryOps.length = state.memoryOps.length +
      (if plainAccess spaces event then 1 else 0) + (if atomicAccess event then 1 else 0) := by
  cases event with
  | workGroupBegin => exact absurd rfl notBegin
  | workGroupComplete => exact absurd rfl notComplete
  | instructionExecuted inst =>
    rw [instructionExecuted_frame ok]
    simp [UnorderedMap.valueSum_modify_add, isInstruction, isItemBegin, isItemComplete, isBarrier,
      plainAccess, atomicAccess]
  | _ =>
    simp only [WorkerState.step, Except.ok.injEq] at ok
    subst ok
    simp [WorkerState.workItemBegin, WorkerState.workItemComplete, WorkerState.workItemBarrier,
      WorkerState.workItemClearBarrier, WorkerState.memoryLoad, WorkerState.memoryStore,
      WorkerState.memoryAtomicLoad, WorkerState.memoryAtomicStore, recordAddress_eq, apply_ite,
      isInstruction, isItemBegin, isItemComplete, isBarrier, plainAccess, atomicAccess]

def marked (marks : WorkerEvent → Bool) (event : WorkerEvent) : Nat := if marks event then 1 else 0

theorem sum_marked (marks : WorkerEvent → Bool) (body : List (Nat × WorkerEvent)) :
    (body.map fun e => marked marks e.2).sum = body.countP (marks ·.2) := by
  induction body with
  | nil => rfl
  | cons e rest ih =>
    rw [List.map_cons, List.sum_cons, ih, List.countP_cons, marked]
    exact Nat.add_comm _ _

variable (spaces)

def opcodeTally : Tally spaces where
  worker state := state.computeOps.valueSum
  aggregate agg := agg.computeOps.valueSum
  weight := marked isInstruction
  merge _ _ := UnorderedMap.valueSum_addEntries _ _
  begin _ := rfl
  empty := rfl
  hook _ _ _ notBegin notComplete ok := (hook_counts notBegin notComplete ok).1
  weight_begin := rfl
  weight_complete := rfl

def widthTally : Tally spaces where
  worker state := state.instructionWidth.valueSum
  aggregate agg := agg.instructionWidth.valueSum
  weight := marked isInstruction
  merge _ _ := UnorderedMap.valueSum_addEntries _ _
  begin _ := rfl
  empty := rfl
  hook _ _ _ notBegin notComplete ok := (hook_counts notBegin notComplete ok).2.1
  weight_begin := rfl
  weight_complete := rfl

def threadTally : Tally spaces where
  worker state := state.threadsInvoked
  aggregate agg := agg.threadsInvoked
  weight := marked isItemBegin
  merge _ _ := rfl
  begin _ := rfl
  empty := rfl
  hook _ _ _ notBegin notComplete ok := (hook_counts notBegin notComplete ok).2.2.1
  weight_begin := rfl
  weight_complete := rfl

def perItemTally : Tally spaces where
  worker state := state.instructionsPerWorkitem.length
  aggregate agg := agg.instructionsPerWorkitem.length
  weight := marked isItemComplete
  merge _ _ := List.length_append _ _
  begin _ := rfl
  empty := rfl
  hook _ _ _ notBegin notComplete ok := (hook_counts notBegin notComplete ok).2.2.2.1
  weight_begin := rfl
  weight_complete := rfl

def toBarrierTally : Tally spaces where
  worker state := state.instructionsBetweenBarriers.length
  aggregate agg := agg.instructionsToBarrier.length
  weight event := marked isBarrier event + marked isItemComplete event
  merge _ _ := List.length_append _ _
  begin _ := rfl
  empty := rfl
  hook _ _ _ notBegin notComplete ok := by
    dsimp only
    rw [(hook_counts notBegin notComplete ok).2.2.2.2.1, marked, marked, Nat.add_assoc]
  weight_begin := rfl
  weight_complete := rfl

def barrierTally : Tally spaces where
  worker state := state.barriersHit
  aggregate agg := agg.barriersHit
  weight := marked isBarrier
  merge _ _ := rfl
  begin _ := rfl
  empty := rfl
  hook _ _ _ notBegin notComplete ok := (hook_counts notBegin notComplete ok).2.2.2.2.2.1
  weight_begin := rfl
  weight_complete := rfl

def accessTally : Tally spaces where
  worker state := state.memoryOps.length
  aggregate agg := agg.memoryOps.length
  weight event := marked (plainAccess spaces) event + marked atomicAccess event
  merge _ _ := List.length_append _ _
  begin _ := rfl
  empty := rfl
  hook _ _ _ notBegin notComplete ok := by
    dsimp only
    rw [(hook_counts notBegin notComplete ok).2.2.2.2.2.2, marked, marked, Nat.add_assoc]
  weight_begin := rfl
  weight_complete := rfl

variable {spaces}

theorem next_items {phase q : Phase} {event : WorkerEvent} (advance : phase.next event = some q) :
    (if isItemBegin event then 1 else 0) + phase.running = (if isItemComplete event then 1 else 0) + q.running := by
  rcases phase with _ | _ | n <;> cases event <;> simp [Phase.next] at advance <;>
    simp [← advance, Phase.running, isItemBegin, isItemComplete, Nat.add_comm]

theorem follow_items {phase q : Phase} {events : List WorkerEvent} (follow : phase.follow events = some q) :
    events.countP isItemBegin + phase.running = events.countP isItemComplete + q.running := by
  induction events generalizing phase with
  | nil => simp_all [Phase.follow]
  | cons event rest ih =>
    obtain ⟨mid, advance, continues⟩ := follow_cons_some follow
    have later := ih continues
    have step := next_items advance
    simp only [List.countP_cons]
    omega

theorem countP_project (marks : WorkerEvent → Bool) (body : List (Nat × WorkerEvent)) (S : Finset Nat)
    (within : ∀ e ∈ body, e.1 ∈ S) :
    body.countP (marks ·.2) = ∑ w in S, (project w body).countP marks := by
  induction body with
  | nil => simp [project]
  | cons e rest ih =>
    have split : ∀ w, (project w (e :: rest)).countP marks =
        (project w rest).countP marks + if e.1 = w then (if marks e.2 then 1 else 0) else 0 := by
      intro w
      by_cases same : e.1 = w <;> simp [same, List.countP_cons]
    simp only [List.countP_cons, split, Finset.sum_add_distrib, Finset.sum_ite_eq,
      within e (List.mem_cons_self _ _), if_true, ih fun e member => within e (List.mem_cons_of_mem _ member)]

theorem items_balanced {body : List (Nat × WorkerEvent)} (wf : WellFormedBody body) :
    body.countP (isItemBegin ·.2) = body.countP (isItemComplete ·.2) := by
  rw [countP_project _ _ _ fun _ => mem_workers, countP_project _ _ _ fun _ => mem_workers]
  exact Finset.sum_congr rfl fun w _ => by simpa using follow_items (wf w)

/-- One invocation of well-formed hooks: the opcode and width counts add up to the
    instructions executed, one thread is counted per work-item, every work-item and every
    barrier leaves one value in the per-item and to-barrier lists, and every load or store
    outside private memory and every atomic access outside address space `0` leaves one
    address. -/
theorem invocation_counts (spaces : AddressSpaces) (name : String) (body : List (Nat × WorkerEvent))
    (system after : System) (wf : WellFormedBody body)
    (ran : system.run spaces (.kernelBegin name :: body.map fun e => .worker e.1 e.2) = .ok after) :
    after.plugin.aggregate.computeOps.valueSum = body.countP (isInstruction ·.2) ∧
    after.plugin.aggregate.instructionWidth.valueSum = body.countP (isInstruction ·.2) ∧
    after.plugin.aggregate.threadsInvoked = body.countP (isItemBegin ·.2) ∧
    after.plugin.aggregate.threadsInvoked = after.plugin.aggregate.instructionsPerWorkitem.length ∧
    after.plugin.aggregate.instructionsToBarrier.length =
      after.plugin.aggregate.barriersHit + after.plugin.aggregate.threadsInvoked ∧
    after.plugin.aggregate.memoryOps.length =
      body.countP (plainAccess spaces ·.2) + body.countP (atomicAccess ·.2) := by
  have ops := (opcodeTally spaces).invocation_total wf ran
  have width := (widthTally spaces).invocation_total wf ran
  have threads := (threadTally spaces).invocation_total wf ran
  have perItem := (perItemTally spaces).invocation_total wf ran
  have toBarrier := (toBarrierTally spaces).invocation_total wf ran
  have barriers := (barrierTally spaces).invocation_total wf ran
  have accesses := (accessTally spaces).invocation_total wf ran
  have balanced := items_balanced wf
  simp only [opcodeTally, widthTally, threadTally, perItemTally, toBarrierTally, barrierTally,
    accessTally, List.sum_map_add, sum_marked] at ops width threads perItem toBarrier barriers accesses
  omega

end Hooks

theorem invocation_counts_two_items :
    let load : Instruction := ⟨.load, "load", [], 1, "p", 3, "%entry", 1⟩
    let add : Instruction := ⟨.other 13, "add", [], 0, "", 4, "%entry", 1⟩
    let body : List (Nat × WorkerEvent) := [(0, .workGroupBegin), (0, .workItemBegin),
      (0, .instructionExecuted load), (0, .memoryLoad 1 64), (0, .workItemBarrier), (0, .workItemBegin),
      (0, .instructionExecuted add), (0, .workItemBarrier), (0, .workItemClearBarrier),
      (0, .instructionExecuted add), (0, .workItemComplete), (0, .workItemClearBarrier), (0, .workItemComplete),
      (0, .workGroupComplete)]
    WellFormedBody body ∧ ∃ after, System.initial.run ⟨0, 1, 2, 3⟩ (.kernelBegin "k" :: body.map fun e => .worker e.1 e.2) = .ok after ∧
      after.plugin.aggregate.computeOps.valueSum = 3 ∧ after.plugin.aggregate.instructionWidth.valueSum = 3 ∧
      after.plugin.aggregate.threadsInvoked = 2 ∧
      after.plugin.aggregate.threadsInvoked = after.plugin.aggregate.instructionsPerWorkitem.length ∧
      after.plugin.aggregate.instructionsToBarrier.length =
        after.plugin.aggregate.barriersHit + after.plugin.aggregate.threadsInvoked ∧
      after.plugin.aggregate.memoryOps.length = 1 + 0 := by
  intro load add body
  obtain ⟨after, ran⟩ : ∃ after, System.initial.run ⟨0, 1, 2, 3⟩
      (.kernelBegin "k" :: body.map fun e => .worker e.1 e.2) = .ok after := ⟨_, rfl⟩
  exact ⟨by decide, after, ran, invocation_counts ⟨0, 1, 2, 3⟩ "k" body .initial after (by decide) ran⟩

end AiwcProof
