import Aiwc.Proof.EmptyContainers
import Aiwc.Proof.BranchHistory

namespace AiwcProof

open AiwcModel

section Positive

variable {κ : Type} [DecidableEq κ]

def Positive (m : UnorderedMap κ Nat) : Prop := ∀ k c, m.find? k = some c → 0 < c

theorem positive_empty : Positive (UnorderedMap.empty : UnorderedMap κ Nat) := fun _ _ found => by
  simp at found

theorem Positive.modify_succ {m : UnorderedMap κ Nat} (positive : Positive m) (key : κ) :
    Positive (m.modify key (· + 1)) := fun k c found => by
  rw [UnorderedMap.find?_modify] at found
  split at found
  · cases found
    omega
  · exact positive k c found

theorem Positive.addEntries {m src : UnorderedMap κ Nat} (positive : Positive m) (positive' : Positive src) :
    Positive (m.addEntries src.entries) := fun k c found => by
  rw [UnorderedMap.find?_addEntries _ _ src.nodupKeys] at found
  change Option.merge _ (m.find? k) (src.find? k) = some c at found
  cases hm : m.find? k <;> cases hs : src.find? k <;> simp only [hm, hs, Option.merge, Option.some.injEq] at found
  · cases found
  · exact found ▸ positive' k _ hs
  · exact found ▸ positive k _ hm
  · have := positive k _ hm
    omega

theorem Positive.entries_eq_nil {m : UnorderedMap κ Nat} (positive : Positive m) (none : m.valueSum = 0) :
    m.entries = [] := by
  cases entries : m.entries with
  | nil => rfl
  | cons entry rest =>
    have counted := positive entry.1 entry.2 (UnorderedMap.mem_entries.mp (entries ▸ List.mem_cons_self _ _))
    simp only [UnorderedMap.valueSum, entries, List.map_cons, List.sum_cons] at none
    omega

end Positive

/-- A property of worker states and of the aggregate that `workGroupBegin` establishes, that
    the hooks inside a work-group keep, and that the merge of `workGroupComplete` keeps. -/
structure Guard (spaces : AddressSpaces) where
  worker : WorkerState → Prop
  aggregate : Aggregate → Prop
  begin : ∀ state : WorkerState, worker state.workGroupBegin
  hook : ∀ (state : WorkerState) (event : WorkerEvent) (next : WorkerState),
    event ≠ .workGroupBegin → event ≠ .workGroupComplete → state.step spaces event = .ok next →
      worker state → worker next
  merge : ∀ (agg : Aggregate) (state : WorkerState), aggregate agg → worker state → aggregate (agg.merge state)
  empty : aggregate .empty

namespace Guard

variable {spaces : AddressSpaces} (g : Guard spaces)

/-- The aggregate has the property, and so has every worker inside a work-group. -/
def Holds (phases : Nat → Phase) (system : System) : Prop :=
  g.aggregate system.plugin.aggregate ∧ ∀ w, phases w ≠ .idle → g.worker (system.workers w)

theorem step_holds {system mid : System} {w : Nat} {event : WorkerEvent} {phases : Nat → Phase} {q : Phase}
    (advance : (phases w).next event = some q) (ok : system.step spaces (.worker w event) = .ok mid)
    (holds : g.Holds phases system) : g.Holds (Function.update phases w q) mid := by
  obtain ⟨next, stepped, workers, aggregate⟩ := step_worker_ok ok
  refine ⟨?_, fun v active => ?_⟩
  · rw [aggregate]
    split
    · rename_i complete
      subst complete
      exact g.merge _ _ holds.1 (holds.2 w (by rw [(next_complete advance).1]; decide))
    · exact holds.1
  · rw [workers]
    by_cases same : v = w
    · subst v
      rw [Function.update_same] at active ⊢
      by_cases isBegin : event = .workGroupBegin
      · subst isBegin
        cases stepped
        exact g.begin _
      · by_cases isComplete : event = .workGroupComplete
        · subst isComplete
          exact absurd (next_complete advance).2 active
        · exact g.hook _ _ _ isBegin isComplete stepped
            (holds.2 w (next_inside isBegin isComplete advance).1)
    · rw [Function.update_noteq same] at active ⊢
      exact holds.2 v active

theorem run_holds (rest : List (Nat × WorkerEvent)) (system after : System) (phases : Nat → Phase)
    (follow : ∀ w, (phases w).follow (project w rest) = some .idle) (holds : g.Holds phases system)
    (ran : system.run spaces (rest.map fun e => .worker e.1 e.2) = .ok after) : g.aggregate after.plugin.aggregate := by
  induction rest generalizing system phases with
  | nil =>
    cases ran
    exact holds.1
  | cons e rest ih =>
    obtain ⟨mid, stepped, continued⟩ := run_cons_ok ran
    obtain ⟨q, advance, continues⟩ := follow_cons_update follow
    exact ih mid _ continues (g.step_holds advance stepped holds) continued

theorem invocation_holds {name : String} {body : List (Nat × WorkerEvent)} {system after : System}
    (wf : WellFormedBody body)
    (ran : system.run spaces (.kernelBegin name :: body.map fun e => .worker e.1 e.2) = .ok after) :
    g.aggregate after.plugin.aggregate := by
  obtain ⟨started, begun, rest⟩ := run_cons_ok ran
  obtain ⟨cleared, -⟩ := step_kernelBegin_ok begun
  exact g.run_holds body started after (fun _ => .idle) wf ⟨cleared ▸ g.empty, fun _ idle => absurd rfl idle⟩ rest

end Guard

/-- Every count of `m_instructionWidth`, in the workers and in the aggregate, is positive. -/
def widthGuard (spaces : AddressSpaces) : Guard spaces where
  worker state := Positive state.instructionWidth
  aggregate agg := Positive agg.instructionWidth
  begin _ := positive_empty
  hook state event next notBegin _ ok positive := by
    cases event with
    | workGroupBegin => exact absurd rfl notBegin
    | instructionExecuted inst =>
      rw [instructionExecuted_frame ok]
      exact positive.modify_succ _
    | _ =>
      simp only [WorkerState.step, Except.ok.injEq] at ok
      subst ok
      simpa [WorkerState.workItemBegin, WorkerState.workItemComplete, WorkerState.workItemBarrier,
        WorkerState.workItemClearBarrier, WorkerState.memoryLoad, WorkerState.memoryStore,
        WorkerState.memoryAtomicLoad, WorkerState.memoryAtomicStore, recordAddress_eq] using positive
  merge _ _ positive positive' := positive.addEntries positive'
  empty := positive_empty

section Containers

variable {spaces : AddressSpaces} {name : String} {body : List (Nat × WorkerEvent)} {system after : System}

theorem instructionWidth_eq_nil_iff (wf : WellFormedBody body)
    (ran : system.run spaces (.kernelBegin name :: body.map fun e => .worker e.1 e.2) = .ok after) :
    after.plugin.aggregate.instructionWidth.entries = [] ↔ body.countP (isInstruction ·.2) = 0 := by
  have total := (widthTally spaces).invocation_total wf ran
  simp only [widthTally, sum_marked] at total
  refine ⟨fun none => ?_, fun none => ((widthGuard spaces).invocation_holds wf ran).entries_eq_nil (total.trans none)⟩
  rw [← total, UnorderedMap.valueSum, none]
  rfl

theorem sum_weights_le {f : WorkerEvent → Nat} (bound : ∀ event, f event ≤ 1) (body : List (Nat × WorkerEvent)) :
    (body.map fun e => f e.2).sum ≤ body.length := by
  induction body with
  | nil => rfl
  | cons e rest ih =>
    have one := bound e.2
    simp only [List.map_cons, List.sum_cons, List.length_cons]
    omega

theorem perItem_lengths_le (wf : WellFormedBody body)
    (ran : system.run spaces (.kernelBegin name :: body.map fun e => .worker e.1 e.2) = .ok after) :
    after.plugin.aggregate.instructionsToBarrier.length ≤ body.length ∧
      after.plugin.aggregate.instructionsPerWorkitem.length ≤ body.length := by
  have toBarrier : after.plugin.aggregate.instructionsToBarrier.length = _ :=
    (toBarrierTally spaces).invocation_total wf ran
  have perItem : after.plugin.aggregate.instructionsPerWorkitem.length = _ :=
    (perItemTally spaces).invocation_total wf ran
  rw [toBarrier, perItem]
  exact ⟨sum_weights_le (fun event => by cases event <;> simp [toBarrierTally, marked, isBarrier, isItemComplete]) body,
    sum_weights_le (fun event => by cases event <;> simp [perItemTally, marked, isItemComplete]) body⟩

end Containers

section Reads

theorem minElement_ok (container : String) {values : List Nat} (nonempty : values ≠ []) :
    ∃ least, minElement container values = .ok least := by
  cases values with
  | nil => exact absurd rfl nonempty
  | cons x xs => exact ⟨_, rfl⟩

theorem maxElement_ok (container : String) {values : List Nat} (nonempty : values ≠ []) :
    ∃ greatest, maxElement container values = .ok greatest := by
  cases values with
  | nil => exact absurd rfl nonempty
  | cons x xs => exact ⟨_, rfl⟩

variable {agg : Aggregate} (barriers : agg.instructionsToBarrier ≠ []) (items : agg.instructionsPerWorkitem ≠ [])
  (barriersFit : agg.instructionsToBarrier.length < 2 ^ 64) (itemsFit : agg.instructionsPerWorkitem.length < 2 ^ 64)

include barriers items barriersFit itemsFit in
theorem kernelEndCounts_of_items :
    (agg.instructionWidth.entries ≠ [] → ∃ counts, kernelEndCounts agg = .ok counts) ∧
      (agg.instructionWidth.entries = [] →
        kernelEndCounts agg = .error (.emptyRange "m_instructionWidth")) := by
  obtain ⟨_, ops⟩ := coverage_significant ((sortDescending Prod.snd agg.computeOps.entries).map Prod.snd)
  obtain ⟨_, addresses⟩ :=
    coverage_significant ((sortDescending Prod.snd (addressCount 0 agg.memoryOps).entries).map Prod.snd)
  obtain ⟨_, branches⟩ :=
    coverage_significant ((sortDescending (fun entry => entry.2.length) agg.branchOps.entries).map fun entry => entry.2.length)
  obtain ⟨_, leastBarrier⟩ := minElement_ok "m_instructionsToBarrier" barriers
  obtain ⟨_, mostBarrier⟩ := maxElement_ok "m_instructionsToBarrier" barriers
  obtain ⟨_, leastItem⟩ := minElement_ok "m_instructionsPerWorkitem" items
  obtain ⟨_, mostItem⟩ := maxElement_ok "m_instructionsPerWorkitem" items
  refine ⟨fun widths => ?_, fun widths => ?_⟩
  · have named : agg.instructionWidth.entries.map Prod.fst ≠ [] := List.map_eq_nil_iff.not.mpr widths
    obtain ⟨_, leastWidth⟩ := minElement_ok "m_instructionWidth" named
    obtain ⟨_, mostWidth⟩ := maxElement_ok "m_instructionWidth" named
    simp only [kernelEndCounts, ops, addresses, branches, leastBarrier, mostBarrier, leastItem, mostItem,
      leastWidth, mostWidth, median_eq _ barriers barriersFit, median_eq _ items itemsFit, bind, Except.bind,
      pure, Except.pure]
    exact ⟨_, rfl⟩
  · have empty : minElement "m_instructionWidth" [] = .error (.emptyRange "m_instructionWidth") := rfl
    simp only [kernelEndCounts, ops, leastBarrier, mostBarrier, leastItem, mostItem, widths, List.map_nil,
      median_eq _ barriers barriersFit, median_eq _ items itemsFit, empty, bind, Except.bind]

end Reads

theorem branchHistories_ok_iff (agg : Aggregate) :
    (∃ histories, branchHistories agg = .ok histories) ↔
      ∀ entry ∈ agg.branchOps.entries, entry.2.length < 2 ^ 32 + 15 := by
  rw [branchHistories, mapM_historyPatterns]
  split
  · rename_i fits
    simp only [List.all_eq_true, List.mem_filter, decide_eq_true_eq] at fits
    refine ⟨fun _ entry member => ?_, fun _ => ⟨_, rfl⟩⟩
    by_cases long : 16 ≤ entry.2.length
    · have := fits entry ⟨member, long⟩
      omega
    · omega
  · rename_i fails
    refine ⟨fun ⟨_, faulted⟩ => (by cases faulted), fun fits => absurd ?_ fails⟩
    simp only [List.all_eq_true, List.mem_filter, decide_eq_true_eq]
    exact fun entry member => by have := fits entry member.1; omega

theorem step_kernelEnd_ok_iff (spaces : AddressSpaces) (system : System) (name : String) :
    system.step spaces (.kernelEnd name) =
        .ok { system with plugin := { system.plugin with aggregate := system.plugin.aggregate.resetAfterReport } } ↔
      (∃ counts, kernelEndCounts system.plugin.aggregate = .ok counts) ∧
        ∃ histories, branchHistories system.plugin.aggregate = .ok histories := by
  simp only [System.step]
  cases kernelEndCounts system.plugin.aggregate <;> cases branchHistories system.plugin.aggregate <;>
    simp [bind, Except.bind, pure, Except.pure]

/-- `kernelEnd` of a well-formed invocation of fewer than 2^64 hooks returns exactly when an
    instruction ran and every branch line holds fewer than 2^32 + 15 booleans. When work-items
    ran but no instruction did, `m_instructionWidth` is empty and `kernelEnd` dereferences the
    end of its `min_element`. -/
theorem kernelEnd_outcome (spaces : AddressSpaces) (name : String) (body : List (Nat × WorkerEvent))
    (system before : System) (wf : WellFormedBody body) (fits : body.length < 2 ^ 64)
    (ran : system.run spaces (.kernelBegin name :: body.map fun e => .worker e.1 e.2) = .ok before) :
    (before.step spaces (.kernelEnd name) =
        .ok { before with plugin := { before.plugin with aggregate := before.plugin.aggregate.resetAfterReport } } ↔
      0 < body.countP (isInstruction ·.2) ∧
        ∀ entry ∈ before.plugin.aggregate.branchOps.entries, entry.2.length < 2 ^ 32 + 15) ∧
    (0 < body.countP (isItemBegin ·.2) → body.countP (isInstruction ·.2) = 0 →
      before.step spaces (.kernelEnd name) = .error (.emptyRange "m_instructionWidth")) := by
  obtain ⟨barriersFit, itemsFit⟩ := perItem_lengths_le wf ran
  have filled : 0 < body.countP (isItemBegin ·.2) →
      before.plugin.aggregate.instructionsToBarrier ≠ [] ∧ before.plugin.aggregate.instructionsPerWorkitem ≠ [] :=
    fun items => ⟨(instructionsToBarrier_eq_nil_iff wf ran).not.mpr (by omega),
      (instructionsPerWorkitem_eq_nil_iff wf ran).not.mpr (by omega)⟩
  have reads := fun items => kernelEndCounts_of_items (filled items).1 (filled items).2
    (by omega) (by omega)
  have widths := instructionWidth_eq_nil_iff wf ran
  have counted : (∃ counts, kernelEndCounts before.plugin.aggregate = .ok counts) ↔
      0 < body.countP (isInstruction ·.2) := by
    refine ⟨fun ⟨_, ok⟩ => Nat.pos_of_ne_zero fun none => ?_, fun executed => ?_⟩
    · by_cases items : body.countP (isItemBegin ·.2) = 0
      · rw [kernelEndCounts_of_nil ((instructionsToBarrier_eq_nil_iff wf ran).mpr items)] at ok
        cases ok
      · rw [(reads (Nat.pos_of_ne_zero items)).2 (widths.mpr none)] at ok
        cases ok
    · have items : 0 < body.countP (isItemBegin ·.2) := Nat.pos_of_ne_zero fun none =>
        by rw [(hooks_without_items wf none).2] at executed; exact absurd executed (Nat.lt_irrefl 0)
      exact (reads items).1 (widths.not.mpr (by omega))
  refine ⟨by rw [step_kernelEnd_ok_iff, counted, branchHistories_ok_iff], fun items none => ?_⟩
  rw [System.step, (reads items).2 (widths.mpr none)]
  rfl

theorem kernelEnd_outcome_one_item :
    let load : Instruction := ⟨.load, "load", [], 1, "p", 3, "%entry", 1⟩
    let body : List (Nat × WorkerEvent) := [(0, .workGroupBegin), (0, .workItemBegin),
      (0, .instructionExecuted load), (0, .memoryLoad 1 64), (0, .workItemComplete), (0, .workGroupComplete)]
    WellFormedBody body ∧ body.length < 2 ^ 64 ∧
      ∃ before, System.initial.run ⟨0, 1, 2, 3⟩ (.kernelBegin "k" :: body.map fun e => .worker e.1 e.2) =
          .ok before ∧
        (before.step ⟨0, 1, 2, 3⟩ (.kernelEnd "k") =
            .ok { before with plugin := { before.plugin with aggregate := before.plugin.aggregate.resetAfterReport } } ↔
          0 < body.countP (isInstruction ·.2) ∧
            ∀ entry ∈ before.plugin.aggregate.branchOps.entries, entry.2.length < 2 ^ 32 + 15) ∧
        (0 < body.countP (isItemBegin ·.2) → body.countP (isInstruction ·.2) = 0 →
          before.step ⟨0, 1, 2, 3⟩ (.kernelEnd "k") = .error (.emptyRange "m_instructionWidth")) := by
  intro load body
  obtain ⟨before, ran⟩ : ∃ before, System.initial.run ⟨0, 1, 2, 3⟩
      (.kernelBegin "k" :: body.map fun e => .worker e.1 e.2) = .ok before := ⟨_, rfl⟩
  exact ⟨by decide, by decide, before, ran,
    kernelEnd_outcome ⟨0, 1, 2, 3⟩ "k" body .initial before (by decide) (by decide) ran⟩

end AiwcProof
