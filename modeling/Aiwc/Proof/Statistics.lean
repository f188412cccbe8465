import Aiwc.Proof.MergeOrder

namespace AiwcProof

open AiwcModel

section Coverage

theorem coverage_prefix (threshold : Nat) (counts : List Nat) (taken sum : Nat)
    (enough : threshold ≤ sum + counts.sum) :
    ∃ k ≤ counts.length, coverage threshold counts taken sum = .ok (taken + k) ∧
      threshold ≤ sum + (counts.take k).sum ∧ ∀ j < k, sum + (counts.take j).sum < threshold := by
  induction counts generalizing taken sum with
  | nil =>
    rw [List.sum_nil, Nat.add_zero] at enough
    exact ⟨0, le_refl _, by simp [coverage]; omega, by simpa using enough,
      fun _ none => absurd none (by omega)⟩
  | cons count rest ih =>
    by_cases short : sum < threshold
    · obtain ⟨k, bound, ran, reached, least⟩ := ih (taken + 1) (sum + count) (by simp at enough; omega)
      refine ⟨k + 1, by simpa using bound, ?_, ?_, ?_⟩
      · simp only [coverage, short, if_true, ran]
        congr 1
        omega
      · simp only [List.take_succ_cons, List.sum_cons]
        omega
      · intro j below
        cases j with
        | zero => simpa using short
        | succ j =>
          have := least j (by omega)
          simp only [List.take_succ_cons, List.sum_cons]
          omega
    · exact ⟨0, Nat.zero_le _, by simp [coverage, short], by simp; omega, fun _ none => absurd none (by omega)⟩

theorem take_succ_sum_le {counts : List Nat} {top : Nat} (bounded : ∀ c ∈ counts, c ≤ top) (m : Nat) :
    (counts.take (m + 1)).sum ≤ (counts.take m).sum + top := by
  rw [List.take_succ, List.sum_append]
  cases found : counts[m]? with
  | none => simp
  | some c => simpa using bounded c (List.getElem?_mem found)

theorem sum_le_take_of_sublist {chosen counts : List Nat} (sorted : counts.Sorted (· ≥ ·))
    (sub : chosen.Sublist counts) : chosen.sum ≤ (counts.take chosen.length).sum := by
  induction sub with
  | slnil => rfl
  | @cons chosen rest top _ ih =>
    rw [List.sorted_cons] at sorted
    have below := ih sorted.2
    cases length : chosen.length with
    | zero => simp [List.length_eq_zero.mp length]
    | succ m =>
      rw [length] at below
      have step := take_succ_sum_le (fun c member => sorted.1 c member) m
      simp only [List.take_succ_cons, List.sum_cons]
      omega
  | cons₂ top _ ih =>
    rw [List.sorted_cons] at sorted
    simpa using ih sorted.2

/-- On a descending histogram whose total reaches the threshold, the loop stays inside the list
    and returns the least number of entries whose counts reach the threshold; the first that
    many entries do. -/
theorem coverage_least (threshold : Nat) (counts : List Nat) (sorted : counts.Sorted (· ≥ ·))
    (enough : threshold ≤ counts.sum) :
    ∃ k ≤ counts.length, coverage threshold counts 0 0 = .ok k ∧ threshold ≤ (counts.take k).sum ∧
      ∀ chosen : List Nat, chosen.Sublist counts → threshold ≤ chosen.sum → k ≤ chosen.length := by
  obtain ⟨k, bound, ran, reached, least⟩ := coverage_prefix threshold counts 0 0 (by simpa using enough)
  refine ⟨k, bound, by simpa using ran, by simpa using reached, fun chosen sub covers => ?_⟩
  by_contra short
  have above := least chosen.length (by omega)
  have within := sum_le_take_of_sublist sorted sub
  omega

theorem coverage_least_two :
    [5, 4, 1].Sorted (· ≥ ·) ∧ 9 ≤ [5, 4, 1].sum ∧
      ∃ k ≤ [5, 4, 1].length, coverage 9 [5, 4, 1] 0 0 = .ok k ∧ 9 ≤ ([5, 4, 1].take k).sum ∧
        ∀ chosen : List Nat, chosen.Sublist [5, 4, 1] → 9 ≤ chosen.sum → k ≤ chosen.length :=
  ⟨by decide, by decide, coverage_least 9 [5, 4, 1] (by decide) (by decide)⟩

theorem significantCount_le (count : Nat) : significantCount count ≤ count :=
  (Nat.mod_le _ _).trans (by omega)

theorem coverage_significant (counts : List Nat) :
    ∃ k, coverage (significantCount counts.sum) counts 0 0 = .ok k := by
  obtain ⟨k, -, ran, -⟩ := coverage_prefix (significantCount counts.sum) counts 0 0
    (by rw [Nat.zero_add]; exact significantCount_le _)
  exact ⟨_, ran⟩

/-- One work-item that executes `add` 4772185884 times: ⌈0.9 · 4772185884⌉ = 2^32 does not fit
    the `(unsigned)` cast, the threshold becomes 0, and the loop reports 0 opcodes where one is
    needed. -/
theorem coverage_threshold_wraps :
    (kernelEndCounts { Aggregate.empty with
      computeOps := UnorderedMap.empty.modify "add" (· + 4772185884)
      instructionWidth := UnorderedMap.empty.modify 1 (· + 4772185884)
      instructionsToBarrier := [toUnsigned 4772185884]
      instructionsPerWorkitem := [toUnsigned 4772185884]
      threadsInvoked := 1 }).map (·.majorOperations) = .ok 0 ∧
      (9 * 4772185884 + 9) / 10 = 2 ^ 32 :=
  ⟨rfl, rfl⟩

end Coverage

section Median

theorem element_of_lt {values : List Nat} {index : Nat} (inside : index < values.length) :
    element values index = .ok (values.getD index 0) := by
  simp [element, List.getD_eq_getElem?_getD, List.getElem?_eq_getElem inside]

theorem median_eq (values : List Nat) (nonempty : values ≠ []) (small : values.length < 2 ^ 64) :
    median values = .ok (
      if values.length % 2 = 0 then
        toUnsigned ((values.insertionSort (· ≤ ·)).getD (values.length / 2 - 1) 0 +
          (values.insertionSort (· ≤ ·)).getD (values.length / 2) 0) / 2
      else (values.insertionSort (· ≤ ·)).getD (values.length / 2) 0) := by
  have positive : 0 < values.length := List.length_pos.mpr nonempty
  by_cases even : values.length % 2 = 0
  · have lower : (values.length / 2 + 2 ^ 64 - 1) % 2 ^ 64 = values.length / 2 - 1 := by omega
    simp only [median, List.length_insertionSort, even, if_true, lower,
      element_of_lt (by simp; omega : values.length / 2 - 1 < (values.insertionSort (· ≤ ·)).length),
      element_of_lt (by simp; omega : values.length / 2 < (values.insertionSort (· ≤ ·)).length)]
    rfl
  · simp only [median, List.length_insertionSort, even, if_false,
      element_of_lt (by simp; omega : values.length / 2 < (values.insertionSort (· ≤ ·)).length)]

/-- Two work-items that each execute 2^32 - 1 instructions without a barrier: the two middle
    counts overflow `unsigned int` when added, and the median reported is 2^31 - 1, below both
    the minimum and the maximum. -/
theorem median_wraps :
    (kernelEndCounts { Aggregate.empty with
      computeOps := UnorderedMap.empty.modify "add" (· + 8589934590)
      instructionWidth := UnorderedMap.empty.modify 1 (· + 8589934590)
      instructionsToBarrier := [4294967295, 4294967295]
      instructionsPerWorkitem := [4294967295, 4294967295]
      threadsInvoked := 2 }).map (fun counts => (counts.itbMin, counts.itbMax, counts.itbMedian)) =
      .ok (4294967295, 4294967295, 2147483647) :=
  rfl

end Median

end AiwcProof
