import Mathlib
import Aiwc.Proof.Footprint

namespace AiwcProof

open AiwcModel

def opcodeOf : WorkerEvent → Option String
  | .instructionExecuted inst => some inst.opcodeName
  | _ => none

def widthOf : WorkerEvent → Option Nat
  | .instructionExecuted inst => some inst.resultNum
  | _ => none

section Counts

variable {κ : Type} [DecidableEq κ]

theorem getD_find?_addEntries (dst src : UnorderedMap κ Nat) (k : κ) :
    ((dst.addEntries src.entries).find? k).getD 0 = (dst.find? k).getD 0 + (src.find? k).getD 0 := by
  rw [UnorderedMap.find?_addEntries _ _ src.nodupKeys]
  change (Option.merge _ (dst.find? k) (src.find? k)).getD 0 = _
  cases dst.find? k <;> cases src.find? k <;> simp [Option.merge]

theorem getD_find?_modify_succ (m : UnorderedMap κ Nat) (key k : κ) :
    ((m.modify key (· + 1)).find? k).getD 0 = (m.find? k).getD 0 + [key].count k := by
  rw [UnorderedMap.find?_modify, List.count_singleton]
  by_cases same : k = key
  · subst same
    simp
  · simp [same, Ne.symm same]

end Counts

theorem hook_instructionCounts {spaces : AddressSpaces} {state next : WorkerState} {event : WorkerEvent}
    (notBegin : event ≠ .workGroupBegin) (notComplete : event ≠ .workGroupComplete)
    (ok : state.step spaces event = .ok next) (name : String) (width : Nat) :
    (next.computeOps.find? name).getD 0 = (state.computeOps.find? name).getD 0 + (opcodeOf event).toList.count name ∧
      (next.instructionWidth.find? width).getD 0 =
        (state.instructionWidth.find? width).getD 0 + (widthOf event).toList.count width := by
  cases event with
  | workGroupBegin => exact absurd rfl notBegin
  | workGroupComplete => exact absurd rfl notComplete
  | instructionExecuted inst =>
    rw [instructionExecuted_frame ok]
    exact ⟨getD_find?_modify_succ _ _ _, getD_find?_modify_succ _ _ _⟩
  | _ =>
    simp only [WorkerState.step, Except.ok.injEq] at ok
    subst ok
    simp [WorkerState.workItemBegin, WorkerState.workItemComplete, WorkerState.workItemBarrier,
      WorkerState.workItemClearBarrier, WorkerState.memoryLoad, WorkerState.memoryStore,
      WorkerState.memoryAtomicLoad, WorkerState.memoryAtomicStore, recordAddress_eq, opcodeOf, widthOf]

/-- The count of one opcode mnemonic in `m_computeOps`. -/
def opcodeCountTally (spaces : AddressSpaces) (name : String) : Tally spaces where
  worker state := (state.computeOps.find? name).getD 0
  aggregate agg := (agg.computeOps.find? name).getD 0
  weight event := (opcodeOf event).toList.count name
  merge _ _ := getD_find?_addEntries _ _ _
  begin _ := rfl
  empty := rfl
  hook _ _ _ notBegin notComplete ok := (hook_instructionCounts notBegin notComplete ok name 0).1
  weight_begin := rfl
  weight_complete := rfl

/-- The count of one width in `m_instructionWidth`. -/
def widthCountTally (spaces : AddressSpaces) (width : Nat) : Tally spaces where
  worker state := (state.instructionWidth.find? width).getD 0
  aggregate agg := (agg.instructionWidth.find? width).getD 0
  weight event := (widthOf event).toList.count width
  merge _ _ := getD_find?_addEntries _ _ _
  begin _ := rfl
  empty := rfl
  hook _ _ _ notBegin notComplete ok := (hook_instructionCounts notBegin notComplete ok "" width).2
  weight_begin := rfl
  weight_complete := rfl

theorem min?_congr {l l' : List Nat} (same : ∀ x, x ∈ l ↔ x ∈ l') : l.min? = l'.min? := by
  cases found : l'.min? with
  | none =>
    rw [List.min?_eq_none_iff] at found ⊢
    subst found
    exact List.eq_nil_iff_forall_not_mem.mpr fun x member => List.not_mem_nil x ((same x).mp member)
  | some m =>
    obtain ⟨member, least⟩ := List.min?_eq_some_iff'.mp found
    exact List.min?_eq_some_iff'.mpr ⟨(same m).mpr member, fun b inside => least b ((same b).mp inside)⟩

theorem max?_congr {l l' : List Nat} (same : ∀ x, x ∈ l ↔ x ∈ l') : l.max? = l'.max? := by
  cases found : l'.max? with
  | none =>
    rw [List.max?_eq_none_iff] at found ⊢
    subst found
    exact List.eq_nil_iff_forall_not_mem.mpr fun x member => List.not_mem_nil x ((same x).mp member)
  | some m =>
    obtain ⟨member, greatest⟩ := List.max?_eq_some_iff'.mp found
    exact List.max?_eq_some_iff'.mpr ⟨(same m).mpr member, fun b inside => greatest b ((same b).mp inside)⟩

theorem mem_keys_of_counts {κ : Type} [DecidableEq κ] {m : UnorderedMap κ Nat} (positive : Positive m)
    {l : List κ} (counts : ∀ k, (m.find? k).getD 0 = l.count k) (k : κ) : k ∈ m.entries.map Prod.fst ↔ k ∈ l := by
  refine Iff.trans ?_ List.count_pos_iff
  rw [← counts]
  constructor
  · intro inside
    obtain ⟨entry, member, rfl⟩ := List.mem_map.mp inside
    rw [UnorderedMap.mem_entries.mp member]
    exact positive _ _ (UnorderedMap.mem_entries.mp member)
  · intro counted
    cases found : m.find? k with
    | none => rw [found] at counted; cases counted
    | some c => exact List.mem_map.mpr ⟨(k, c), UnorderedMap.mem_entries.mpr found, rfl⟩

/-- At a `kernelEnd` of a well-formed invocation whose integer part returns, `m_computeOps`
    holds for every mnemonic, and `m_instructionWidth` for every width, the number of executed
    instructions with it; `simd_min`, `simd_max`, `simd_sum` and `simd_num` are the least, the
    greatest, the sum and the number of the executed instructions' widths. -/
theorem instruction_mix (spaces : AddressSpaces) (name : String) (body : List (Nat × WorkerEvent))
    (system after : System) (counts : Counts) (wf : WellFormedBody body)
    (ran : system.run spaces (.kernelBegin name :: body.map fun e => .worker e.1 e.2) = .ok after)
    (counted : kernelEndCounts after.plugin.aggregate = .ok counts) :
    (∀ opcode, (after.plugin.aggregate.computeOps.find? opcode).getD 0 = (body.filterMap (opcodeOf ·.2)).count opcode) ∧
      (∀ width, (after.plugin.aggregate.instructionWidth.find? width).getD 0 =
        (body.filterMap (widthOf ·.2)).count width) ∧
      (body.filterMap (widthOf ·.2)).min? = some counts.simdMin ∧
      (body.filterMap (widthOf ·.2)).max? = some counts.simdMax ∧
      counts.simdSum = (body.filterMap (widthOf ·.2)).sum ∧
      counts.simdNum = (body.filterMap (widthOf ·.2)).length := by
  obtain ⟨-, least, most, sum, num, -⟩ := kernelEndCounts_ok counted
  have opcodes : ∀ opcode, (after.plugin.aggregate.computeOps.find? opcode).getD 0 =
      (body.filterMap (opcodeOf ·.2)).count opcode := fun opcode => by
    have total := (opcodeCountTally spaces opcode).invocation_total wf ran
    simp only [opcodeCountTally] at total
    rw [total, sum_count_toList (fun e : Nat × WorkerEvent => opcodeOf e.2)]
  have widths : ∀ width, (after.plugin.aggregate.instructionWidth.find? width).getD 0 =
      (body.filterMap (widthOf ·.2)).count width := fun width => by
    have total := (widthCountTally spaces width).invocation_total wf ran
    simp only [widthCountTally] at total
    rw [total, sum_count_toList (fun e : Nat × WorkerEvent => widthOf e.2)]
  have positive := (widthGuard spaces).invocation_holds wf ran
  have values : ∀ entry ∈ after.plugin.aggregate.instructionWidth.entries,
      entry.2 = (body.filterMap (widthOf ·.2)).count entry.1 := fun entry member => by
    rw [← widths, UnorderedMap.mem_entries.mp member]
    rfl
  have keys := mem_keys_of_counts positive widths
  have finsetKeys : ∀ width, width ∈ after.plugin.aggregate.instructionWidth.entries.map Prod.fst ↔
      width ∈ (body.filterMap (widthOf ·.2)).toFinset := fun width => by rw [keys, List.mem_toFinset]
  refine ⟨opcodes, widths, (min?_congr keys).symm.trans (min?_of_minElement least),
    (max?_congr keys).symm.trans (max?_of_maxElement most), ?_, ?_⟩
  · have weighted := Finset.sum_list_map_count (body.filterMap (widthOf ·.2)) id
    simp only [List.map_id, smul_eq_mul, id] at weighted
    rw [sum, sum_entries_eq (fun width => (body.filterMap (widthOf ·.2)).count width) values finsetKeys
      fun width count => count * width, weighted]
  · rw [num, UnorderedMap.valueSum, sum_entries_eq (fun width => (body.filterMap (widthOf ·.2)).count width) values
      finsetKeys fun _ count => count, List.sum_toFinset_count_eq_length]

theorem instruction_mix_two_widths :
    let load : Instruction := ⟨.load, "load", [], 1, "p", 3, "%entry", 1⟩
    let add : Instruction := ⟨.other 13, "add", [], 0, "", 4, "%entry", 4⟩
    let body : List (Nat × WorkerEvent) := [(0, .workGroupBegin), (0, .workItemBegin),
      (0, .instructionExecuted load), (0, .memoryLoad 1 64), (0, .instructionExecuted add), (0, .workItemComplete),
      (0, .workGroupComplete)]
    WellFormedBody body ∧ ∃ after counts,
      System.initial.run ⟨0, 1, 2, 3⟩ (.kernelBegin "k" :: body.map fun e => .worker e.1 e.2) = .ok after ∧
      kernelEndCounts after.plugin.aggregate = .ok counts ∧
      (∀ opcode, (after.plugin.aggregate.computeOps.find? opcode).getD 0 = (body.filterMap (opcodeOf ·.2)).count opcode) ∧
      (∀ width, (after.plugin.aggregate.instructionWidth.find? width).getD 0 =
        (body.filterMap (widthOf ·.2)).count width) ∧
      (body.filterMap (widthOf ·.2)).min? = some counts.simdMin ∧
      (body.filterMap (widthOf ·.2)).max? = some counts.simdMax ∧
      counts.simdSum = (body.filterMap (widthOf ·.2)).sum ∧
      counts.simdNum = (body.filterMap (widthOf ·.2)).length := by
  intro load add body
  obtain ⟨after, ran⟩ : ∃ after, System.initial.run ⟨0, 1, 2, 3⟩
      (.kernelBegin "k" :: body.map fun e => .worker e.1 e.2) = .ok after := ⟨_, rfl⟩
  have concrete : after = _ := Except.ok.inj (ran.symm.trans rfl)
  obtain ⟨counts, counted⟩ : ∃ counts, kernelEndCounts after.plugin.aggregate = .ok counts := by
    rw [concrete]
    unfold load add
    exact ⟨_, rfl⟩
  exact ⟨by decide, _, counts, ran, counted, instruction_mix _ "k" body .initial _ counts (by decide) ran counted⟩

end AiwcProof
