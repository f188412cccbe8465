import Mathlib
import Aiwc.Proof.Simd
import Aiwc.Proof.Windows

namespace AiwcProof

open AiwcModel

/-- The address a memory hook appends to `m_memoryOps`, if it appends one. -/
def recordedAddress (spaces : AddressSpaces) : WorkerEvent → Option Nat
  | .memoryLoad space address | .memoryStore space address =>
    if space ≠ spaces.addrSpacePrivate then some address else none
  | .memoryAtomicLoad space address | .memoryAtomicStore space address =>
    if space ≠ 0 then some address else none
  | _ => none

theorem hook_memoryOps {spaces : AddressSpaces} {state next : WorkerState} {event : WorkerEvent}
    (notBegin : event ≠ .workGroupBegin) (notComplete : event ≠ .workGroupComplete)
    (ok : state.step spaces event = .ok next) :
    next.memoryOps = state.memoryOps ++ (recordedAddress spaces event).toList := by
  cases event with
  | workGroupBegin => exact absurd rfl notBegin
  | workGroupComplete => exact absurd rfl notComplete
  | instructionExecuted inst =>
    rw [instructionExecuted_frame ok]
    simp [recordedAddress]
  | _ =>
    simp only [WorkerState.step, Except.ok.injEq] at ok
    subst ok
    simp only [WorkerState.workItemBegin, WorkerState.workItemComplete, WorkerState.workItemBarrier,
      WorkerState.workItemClearBarrier, WorkerState.memoryLoad, WorkerState.memoryStore,
      WorkerState.memoryAtomicLoad, WorkerState.memoryAtomicStore, recordAddress_eq, recordedAddress,
      List.append_nil, Option.toList]
    try split_ifs <;> rfl

/-- The occurrences of one address in `m_memoryOps`. -/
def addressTally (spaces : AddressSpaces) (address : Nat) : Tally spaces where
  worker state := state.memoryOps.count address
  aggregate agg := agg.memoryOps.count address
  weight event := (recordedAddress spaces event).toList.count address
  merge _ _ := List.count_append _ _ _
  begin _ := rfl
  empty := rfl
  hook _ _ _ notBegin notComplete ok := by
    dsimp only
    rw [hook_memoryOps notBegin notComplete ok, List.count_append]
  weight_begin := rfl
  weight_complete := rfl

theorem sum_count_toList {α β : Type} [DecidableEq β] (f : α → Option β) (l : List α) (b : β) :
    (l.map fun x => (f x).toList.count b).sum = (l.filterMap f).count b := by
  induction l with
  | nil => rfl
  | cons x rest ih =>
    rw [List.map_cons, List.sum_cons, ih, List.filterMap_cons]
    cases f x with
    | none => simp
    | some y => simp [List.count_cons, Nat.add_comm]

theorem memoryOps_perm {spaces : AddressSpaces} {name : String} {body : List (Nat × WorkerEvent)}
    {system after : System} (wf : WellFormedBody body)
    (ran : system.run spaces (.kernelBegin name :: body.map fun e => .worker e.1 e.2) = .ok after) :
    after.plugin.aggregate.memoryOps.Perm (body.filterMap (recordedAddress spaces ·.2)) := by
  rw [List.perm_iff_count]
  intro address
  have total := (addressTally spaces address).invocation_total wf ran
  simp only [addressTally] at total
  rw [total, sum_count_toList (fun e : Nat × WorkerEvent => recordedAddress spaces e.2)]

theorem sum_entries_eq {κ M : Type} [DecidableEq κ] [AddCommMonoid M] {m : UnorderedMap κ Nat}
    (count : κ → Nat) {keys : Finset κ} (values : ∀ entry ∈ m.entries, entry.2 = count entry.1)
    (same : ∀ k, k ∈ m.entries.map Prod.fst ↔ k ∈ keys) (F : κ → Nat → M) :
    (m.entries.map fun entry => F entry.1 entry.2).sum = ∑ k ∈ keys, F k (count k) := by
  have finset : (m.entries.map Prod.fst).toFinset = keys := by
    ext k
    rw [List.mem_toFinset, same]
  rw [List.map_congr_left fun entry member => by rw [values entry member], ← finset,
    List.sum_toFinset _ m.nodupKeys, List.map_map]
  rfl

section Histogram

variable (nskip : Nat) (ops : List Nat)

theorem mem_keys_addressCount (k : Nat) :
    k ∈ (addressCount nskip ops).entries.map Prod.fst ↔ k ∈ ops.map (· >>> nskip) := by
  have found := find?_countAddresses nskip k ops .empty
  simp only [List.mem_map, Prod.exists, exists_and_right, exists_eq_right, UnorderedMap.mem_entries]
  rw [addressCount, found, ← Option.isSome_iff_exists]
  by_cases none : ops.countP (· >>> nskip = k) = 0
  · simp only [none, if_true, UnorderedMap.find?_empty, Option.isSome_none, Bool.false_eq_true, false_iff]
    exact fun ⟨address, member, shifted⟩ => by
      rw [List.countP_eq_zero] at none
      exact none address member (by simpa using shifted)
  · simp only [none, if_false, Option.isSome_some, true_iff]
    obtain ⟨address, member, shifted⟩ := List.countP_pos_iff.mp (Nat.pos_of_ne_zero none)
    exact ⟨address, member, by simpa using shifted⟩

theorem size_addressCount : (addressCount nskip ops).size = (ops.map (· >>> nskip)).dedup.length := by
  have same : ((addressCount nskip ops).entries.map Prod.fst).Perm (ops.map (· >>> nskip)).dedup :=
    (List.perm_ext_iff_of_nodup (addressCount nskip ops).nodupKeys (List.nodup_dedup _)).mpr fun k => by
      rw [List.mem_dedup, mem_keys_addressCount]
  rw [UnorderedMap.size, ← same.length_eq, List.length_map]

theorem valueSum_addressCount (fits : ops.length < 2 ^ 32) : (addressCount nskip ops).valueSum = ops.length := by
  have total := valueSum_foldl_increment (ops.map (· >>> nskip)) .empty (by simpa using fits)
  simpa [addressCount, List.foldl_map] using total

end Histogram

theorem coverage_le_length (threshold : Nat) (counts : List Nat) (taken sum k : Nat)
    (ok : coverage threshold counts taken sum = .ok k) : k ≤ taken + counts.length := by
  induction counts generalizing taken sum with
  | nil =>
    simp only [coverage] at ok
    split at ok
    · cases ok
    · cases ok
      omega
  | cons count rest ih =>
    simp only [coverage] at ok
    split at ok
    · have := ih _ _ ok
      simp only [List.length_cons]
      omega
    · cases ok
      omega

theorem memoryAccessCount_eq {agg : Aggregate} {counts : Counts} (counted : kernelEndCounts agg = .ok counts)
    (fits : agg.memoryOps.length < 2 ^ 32) : counts.memoryAccessCount = agg.memoryOps.length := by
  obtain ⟨-, -, -, -, -, sorted, accesses, -⟩ := kernelEndCounts_ok counted
  rw [accesses, sorted, sortDescending_keys, (List.perm_insertionSort _ _).sum_eq, ← UnorderedMap.valueSum,
    valueSum_addressCount 0 _ fits]

/-- At a `kernelEnd` of a well-formed invocation whose integer part returns, `m_memoryOps`
    holds the addresses the memory hooks recorded, the total memory footprint is the number of
    distinct ones, the 90% footprint is at most the total, and below 2^32 recorded accesses the
    number of memory accesses is their number. -/
theorem memory_footprint (spaces : AddressSpaces) (name : String) (body : List (Nat × WorkerEvent))
    (system after : System) (counts : Counts) (wf : WellFormedBody body)
    (ran : system.run spaces (.kernelBegin name :: body.map fun e => .worker e.1 e.2) = .ok after)
    (counted : kernelEndCounts after.plugin.aggregate = .ok counts) :
    after.plugin.aggregate.memoryOps.Perm (body.filterMap (recordedAddress spaces ·.2)) ∧
      counts.totalMemoryFootprint = (body.filterMap (recordedAddress spaces ·.2)).dedup.length ∧
      counts.uniqueMemoryAddresses ≤ counts.totalMemoryFootprint ∧
      ((body.filterMap (recordedAddress spaces ·.2)).length < 2 ^ 32 →
        counts.memoryAccessCount = (body.filterMap (recordedAddress spaces ·.2)).length) := by
  obtain ⟨-, -, -, -, -, sorted, -, covered, footprint⟩ := kernelEndCounts_ok counted
  have recorded := memoryOps_perm wf ran
  have addresses : after.plugin.aggregate.memoryOps.map (· >>> 0) = after.plugin.aggregate.memoryOps := by
    simp
  refine ⟨recorded, ?_, ?_, fun fits => ?_⟩
  · rw [footprint, size_addressCount, addresses, (recorded.dedup).length_eq]
  · have bound := coverage_le_length _ _ _ _ _ covered
    rw [sorted, List.length_map, length_sortDescending, ← UnorderedMap.size, ← footprint] at bound
    omega
  · rw [memoryAccessCount_eq counted (recorded.length_eq ▸ fits), recorded.length_eq]

theorem memory_footprint_one_item :
    let load : Instruction := ⟨.load, "load", [], 1, "p", 3, "%entry", 1⟩
    let body : List (Nat × WorkerEvent) := [(0, .workGroupBegin), (0, .workItemBegin),
      (0, .instructionExecuted load), (0, .memoryLoad 1 64), (0, .memoryStore 1 64), (0, .memoryLoad 0 8),
      (0, .workItemComplete), (0, .workGroupComplete)]
    WellFormedBody body ∧ ∃ after counts,
      System.initial.run ⟨0, 1, 2, 3⟩ (.kernelBegin "k" :: body.map fun e => .worker e.1 e.2) = .ok after ∧
      kernelEndCounts after.plugin.aggregate = .ok counts ∧
      after.plugin.aggregate.memoryOps.Perm (body.filterMap (recordedAddress ⟨0, 1, 2, 3⟩ ·.2)) ∧
      counts.totalMemoryFootprint = (body.filterMap (recordedAddress ⟨0, 1, 2, 3⟩ ·.2)).dedup.length ∧
      counts.uniqueMemoryAddresses ≤ counts.totalMemoryFootprint ∧
      ((body.filterMap (recordedAddress ⟨0, 1, 2, 3⟩ ·.2)).length < 2 ^ 32 →
        counts.memoryAccessCount = (body.filterMap (recordedAddress ⟨0, 1, 2, 3⟩ ·.2)).length) := by
  intro load body
  obtain ⟨after, ran⟩ : ∃ after, System.initial.run ⟨0, 1, 2, 3⟩
      (.kernelBegin "k" :: body.map fun e => .worker e.1 e.2) = .ok after := ⟨_, rfl⟩
  have concrete : after = _ := Except.ok.inj (ran.symm.trans rfl)
  obtain ⟨counts, counted⟩ : ∃ counts, kernelEndCounts after.plugin.aggregate = .ok counts := by
    rw [concrete]
    unfold load
    exact ⟨_, rfl⟩
  exact ⟨by decide, _, counts, ran, counted, memory_footprint _ "k" body .initial _ counts (by decide) ran counted⟩

end AiwcProof
