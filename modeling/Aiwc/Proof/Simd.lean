import Mathlib
import Aiwc.Proof.Outcome

namespace AiwcProof

open AiwcModel

theorem bind_eq_ok {ε α β : Type} {x : Except ε α} {f : α → Except ε β} {b : β} (ok : x >>= f = .ok b) :
    ∃ a, x = .ok a ∧ f a = .ok b := by
  cases x with
  | error e => cases ok
  | ok a => exact ⟨a, rfl, ok⟩

theorem kernelEndCounts_ok {agg : Aggregate} {counts : Counts} (ok : kernelEndCounts agg = .ok counts) :
    counts.totalInstructionCount = ((sortDescending Prod.snd agg.computeOps.entries).map Prod.snd).sum ∧
    minElement "m_instructionWidth" (agg.instructionWidth.entries.map Prod.fst) = .ok counts.simdMin ∧
    maxElement "m_instructionWidth" (agg.instructionWidth.entries.map Prod.fst) = .ok counts.simdMax ∧
    counts.simdSum = (agg.instructionWidth.entries.map fun entry => entry.2 * entry.1).sum ∧
    counts.simdNum = agg.instructionWidth.valueSum ∧
    counts.sortedCount = (sortDescending Prod.snd (addressCount 0 agg.memoryOps).entries).map Prod.snd ∧
    counts.memoryAccessCount = counts.sortedCount.sum ∧
    coverage (significantCount counts.memoryAccessCount) counts.sortedCount 0 0 = .ok counts.uniqueMemoryAddresses ∧
    counts.totalMemoryFootprint = (addressCount 0 agg.memoryOps).size := by
  simp only [kernelEndCounts] at ok
  obtain ⟨_, -, ok⟩ := bind_eq_ok ok
  obtain ⟨_, -, ok⟩ := bind_eq_ok ok
  obtain ⟨_, -, ok⟩ := bind_eq_ok ok
  obtain ⟨_, -, ok⟩ := bind_eq_ok ok
  obtain ⟨_, -, ok⟩ := bind_eq_ok ok
  obtain ⟨_, -, ok⟩ := bind_eq_ok ok
  obtain ⟨_, -, ok⟩ := bind_eq_ok ok
  obtain ⟨_, least, ok⟩ := bind_eq_ok ok
  obtain ⟨_, most, ok⟩ := bind_eq_ok ok
  obtain ⟨_, covered, ok⟩ := bind_eq_ok ok
  obtain ⟨_, -, ok⟩ := bind_eq_ok ok
  cases ok
  exact ⟨rfl, least, most, rfl, rfl, rfl, rfl, covered, rfl⟩

theorem min?_of_minElement {container : String} {values : List Nat} {least : Nat}
    (ok : minElement container values = .ok least) : values.min? = some least := by
  rw [minElement_eq] at ok
  cases found : values.min? with
  | none => rw [found] at ok; cases ok
  | some m => rw [found] at ok; cases ok; rfl

theorem max?_of_maxElement {container : String} {values : List Nat} {greatest : Nat}
    (ok : maxElement container values = .ok greatest) : values.max? = some greatest := by
  rw [maxElement_eq] at ok
  cases found : values.max? with
  | none => rw [found] at ok; cases ok
  | some m => rw [found] at ok; cases ok; rfl

theorem minElement_le {container : String} {values : List Nat} {least : Nat}
    (ok : minElement container values = .ok least) : ∀ v ∈ values, least ≤ v :=
  (List.min?_eq_some_iff'.mp (min?_of_minElement ok)).2

theorem le_maxElement {container : String} {values : List Nat} {greatest : Nat}
    (ok : maxElement container values = .ok greatest) : ∀ v ∈ values, v ≤ greatest :=
  (List.max?_eq_some_iff'.mp (max?_of_maxElement ok)).2

theorem weighted_sum_between (entries : List (Nat × Nat)) {least greatest : Nat}
    (above : ∀ entry ∈ entries, least ≤ entry.1) (below : ∀ entry ∈ entries, entry.1 ≤ greatest) :
    least * (entries.map Prod.snd).sum ≤ (entries.map fun entry => entry.2 * entry.1).sum ∧
      (entries.map fun entry => entry.2 * entry.1).sum ≤ greatest * (entries.map Prod.snd).sum := by
  rw [← List.sum_map_mul_left, ← List.sum_map_mul_left]
  exact ⟨List.sum_le_sum fun entry member => by rw [Nat.mul_comm]; exact Nat.mul_le_mul_left _ (above entry member),
    List.sum_le_sum fun entry member => by rw [Nat.mul_comm]; exact Nat.mul_le_mul_right _ (below entry member)⟩

theorem Positive.valueSum_pos {κ : Type} [DecidableEq κ] {m : UnorderedMap κ Nat} (positive : Positive m)
    (nonempty : m.entries ≠ []) : 0 < m.valueSum :=
  Nat.pos_of_ne_zero fun none => nonempty (positive.entries_eq_nil none)

/-- At a `kernelEnd` of a well-formed invocation whose integer part returns, the SIMD mean lies
    between the SIMD min and max, and the instructions per operand are its inverse: every
    instruction has added one to the count of its width. -/
theorem simd_mean_between {R : Type} [LinearOrderedField R] (log2 sqrt : R → R) (spaces : AddressSpaces)
    (name : String) (body : List (Nat × WorkerEvent)) (system after : System) (counts : Counts)
    (wf : WellFormedBody body)
    (ran : system.run spaces (.kernelBegin name :: body.map fun e => .worker e.1 e.2) = .ok after)
    (counted : kernelEndCounts after.plugin.aggregate = .ok counts) :
    (counts.simdMin : R) ≤ (report log2 sqrt after.plugin.aggregate counts).simdMean ∧
      (report log2 sqrt after.plugin.aggregate counts).simdMean ≤ counts.simdMax ∧
      (report log2 sqrt after.plugin.aggregate counts).instructionsPerOperand =
        1 / (report log2 sqrt after.plugin.aggregate counts).simdMean := by
  obtain ⟨total, least, most, sum, num, -⟩ := kernelEndCounts_ok counted
  have keys : after.plugin.aggregate.instructionWidth.entries ≠ [] := fun none => by
    rw [none] at least
    cases least
  have positive : (0 : R) < counts.simdNum := by
    rw [num]
    exact_mod_cast ((widthGuard spaces).invocation_holds wf ran).valueSum_pos keys
  obtain ⟨low, high⟩ := weighted_sum_between after.plugin.aggregate.instructionWidth.entries
    (fun entry member => minElement_le least _ (List.mem_map_of_mem _ member))
    (fun entry member => le_maxElement most _ (List.mem_map_of_mem _ member))
  have ops : (opcodeTally spaces).aggregate after.plugin.aggregate = _ := (opcodeTally spaces).invocation_total wf ran
  have width : (widthTally spaces).aggregate after.plugin.aggregate = _ := (widthTally spaces).invocation_total wf ran
  have instructions : counts.totalInstructionCount = counts.simdNum := by
    rw [total, num, sortDescending_keys, (List.perm_insertionSort _ _).sum_eq]
    simp only [opcodeTally, widthTally] at ops width
    rw [← UnorderedMap.valueSum, ops, width]
  rw [← sum] at low high
  change counts.simdMin * after.plugin.aggregate.instructionWidth.valueSum ≤ _ at low
  change _ ≤ counts.simdMax * after.plugin.aggregate.instructionWidth.valueSum at high
  rw [← num] at low high
  simp only [report, instructions]
  exact ⟨(le_div_iff₀ positive).mpr (by exact_mod_cast low), (div_le_iff₀ positive).mpr (by exact_mod_cast high),
    by rw [one_div_div]⟩

theorem simd_mean_between_one_load :
    let load : Instruction := ⟨.load, "load", [], 1, "p", 3, "%entry", 1⟩
    let body : List (Nat × WorkerEvent) := [(0, .workGroupBegin), (0, .workItemBegin),
      (0, .instructionExecuted load), (0, .memoryLoad 1 64), (0, .workItemComplete), (0, .workGroupComplete)]
    WellFormedBody body ∧ ∃ after counts,
      System.initial.run ⟨0, 1, 2, 3⟩ (.kernelBegin "k" :: body.map fun e => .worker e.1 e.2) = .ok after ∧
      kernelEndCounts after.plugin.aggregate = .ok counts ∧
      (counts.simdMin : ℚ) ≤ (report (id : ℚ → ℚ) id after.plugin.aggregate counts).simdMean ∧
        (report (id : ℚ → ℚ) id after.plugin.aggregate counts).simdMean ≤ counts.simdMax ∧
        (report (id : ℚ → ℚ) id after.plugin.aggregate counts).instructionsPerOperand =
          1 / (report (id : ℚ → ℚ) id after.plugin.aggregate counts).simdMean := by
  intro load body
  obtain ⟨after, ran⟩ : ∃ after, System.initial.run ⟨0, 1, 2, 3⟩
      (.kernelBegin "k" :: body.map fun e => .worker e.1 e.2) = .ok after := ⟨_, rfl⟩
  have concrete : after = _ := Except.ok.inj (ran.symm.trans rfl)
  obtain ⟨counts, counted⟩ : ∃ counts, kernelEndCounts after.plugin.aggregate = .ok counts := by
    rw [concrete]
    unfold load
    exact ⟨_, rfl⟩
  exact ⟨by decide, _, counts, ran, counted,
    simd_mean_between id id _ "k" body .initial _ counts (by decide) ran counted⟩

section Stdev

variable {R : Type} [LinearOrderedField R]

theorem foldl_add_eq_sum {α : Type} (g : α → R) (init : R) (l : List α) :
    l.foldl (fun sum a => sum + g a) init = init + (l.map g).sum := by
  induction l generalizing init with
  | nil => simp
  | cons a rest ih => rw [List.foldl_cons, ih, List.map_cons, List.sum_cons, add_assoc]

theorem sum_sq_dev_le (entries : List (Nat × Nat)) {least greatest : R} (mean : R)
    (above : ∀ entry ∈ entries, least ≤ entry.1) (below : ∀ entry ∈ entries, (entry.1 : R) ≤ greatest) :
    (entries.map fun entry => ((entry.1 : R) - mean) * ((entry.1 : R) - mean) * entry.2).sum ≤
      (greatest + least - 2 * mean) * (entries.map fun entry => ((entry.2 * entry.1 : Nat) : R)).sum +
        (mean * mean - least * greatest) * (entries.map fun entry => (entry.2 : R)).sum := by
  rw [← List.sum_map_mul_left, ← List.sum_map_mul_left, ← List.sum_map_add]
  refine List.sum_le_sum fun entry member => ?_
  have spread : 0 ≤ (entry.2 : R) * (((entry.1 : R) - least) * (greatest - entry.1)) :=
    mul_nonneg (Nat.cast_nonneg _) (mul_nonneg (sub_nonneg.mpr (above entry member))
      (sub_nonneg.mpr (below entry member)))
  push_cast
  linarith

theorem variance_between (entries : List (Nat × Nat)) {least greatest : R}
    (above : ∀ entry ∈ entries, least ≤ entry.1) (below : ∀ entry ∈ entries, (entry.1 : R) ≤ greatest) :
    let mean : R := ((entries.map fun entry => entry.2 * entry.1).sum : Nat) / ((entries.map Prod.snd).sum : Nat)
    let variance := entries.foldl (fun sum entry => sum + ((entry.1 : R) - mean) * ((entry.1 : R) - mean) * entry.2) 0 /
      ((entries.map Prod.snd).sum : Nat)
    0 ≤ variance ∧ variance ≤ (greatest - least) / 2 * ((greatest - least) / 2) := by
  intro mean variance
  have squares : 0 ≤ (entries.map fun entry => ((entry.1 : R) - mean) * ((entry.1 : R) - mean) * entry.2).sum :=
    List.sum_nonneg fun _ member => by
      obtain ⟨entry, -, rfl⟩ := List.mem_map.mp member
      exact mul_nonneg (mul_self_nonneg _) (Nat.cast_nonneg _)
  have range : 0 ≤ (greatest - least) / 2 * ((greatest - least) / 2) := mul_self_nonneg _
  simp only [variance, foldl_add_eq_sum, zero_add]
  rcases Nat.eq_zero_or_pos ((entries.map Prod.snd).sum) with none | some
  · rw [none, Nat.cast_zero, div_zero]
    exact ⟨le_rfl, range⟩
  have total : (0 : R) < ((entries.map Prod.snd).sum : Nat) := Nat.cast_pos.mpr some
  have weighted : ((entries.map fun entry => ((entry.2 * entry.1 : Nat) : R)).sum) =
      mean * ((entries.map Prod.snd).sum : Nat) := by
    rw [div_mul_cancel₀ _ total.ne', Nat.cast_list_sum, List.map_map]
    rfl
  have counts : (entries.map fun entry => (entry.2 : R)).sum = ((entries.map Prod.snd).sum : Nat) := by
    rw [Nat.cast_list_sum, List.map_map]
    rfl
  have bound := sum_sq_dev_le entries mean above below
  rw [weighted, counts] at bound
  have gap : (greatest - least) / 2 * ((greatest - least) / 2) * ((entries.map Prod.snd).sum : Nat) -
      ((greatest + least - 2 * mean) * (mean * ((entries.map Prod.snd).sum : Nat)) +
        (mean * mean - least * greatest) * ((entries.map Prod.snd).sum : Nat)) =
      ((entries.map Prod.snd).sum : Nat) * (((greatest + least) / 2 - mean) * ((greatest + least) / 2 - mean)) := by
    ring
  refine ⟨div_nonneg squares total.le, (div_le_iff₀ total).mpr ?_⟩
  linarith [mul_nonneg total.le (mul_self_nonneg ((greatest + least) / 2 - mean))]

/-- With `std::sqrt` growing on the numbers that are not negative, `sqrt 0 = 0` and
    `sqrt (x * x) = x` for `x ≥ 0`: at every `kernelEnd` whose integer part returns, the SIMD
    standard deviation lies between `0` and half the range from `simd_min` to `simd_max`. -/
theorem simd_stdev_between {R : Type} [LinearOrderedField R] (log2 sqrt : R → R) (zero : sqrt 0 = 0)
    (monotone : ∀ x y : R, 0 ≤ x → x ≤ y → sqrt x ≤ sqrt y) (square : ∀ x : R, 0 ≤ x → sqrt (x * x) = x)
    (agg : Aggregate) (counts : Counts) (counted : kernelEndCounts agg = .ok counts) :
    0 ≤ (report log2 sqrt agg counts).simdStdev ∧
      (report log2 sqrt agg counts).simdStdev ≤ ((counts.simdMax : R) - counts.simdMin) / 2 := by
  obtain ⟨-, least, most, sum, num, -⟩ := kernelEndCounts_ok counted
  have above : ∀ entry ∈ agg.instructionWidth.entries, (counts.simdMin : R) ≤ entry.1 := fun entry member =>
    Nat.cast_le.mpr (minElement_le least _ (List.mem_map_of_mem _ member))
  have below : ∀ entry ∈ agg.instructionWidth.entries, (entry.1 : R) ≤ counts.simdMax := fun entry member =>
    Nat.cast_le.mpr (le_maxElement most _ (List.mem_map_of_mem _ member))
  obtain ⟨entry, member⟩ : ∃ entry, entry ∈ agg.instructionWidth.entries := by
    cases found : agg.instructionWidth.entries with
    | nil => rw [found] at least; cases least
    | cons entry _ => exact ⟨entry, List.mem_cons_self _ _⟩
  have range : 0 ≤ ((counts.simdMax : R) - counts.simdMin) / 2 :=
    div_nonneg (sub_nonneg.mpr ((above entry member).trans (below entry member))) zero_le_two
  obtain ⟨low, high⟩ := variance_between agg.instructionWidth.entries above below
  simp only [report, sum, num, UnorderedMap.valueSum]
  exact ⟨zero.symm.trans_le (monotone 0 _ le_rfl low), (monotone _ _ low high).trans_eq (square _ range)⟩

theorem simd_stdev_between_two_widths :
    let load : Instruction := ⟨.load, "load", [], 1, "p", 3, "%entry", 1⟩
    let add : Instruction := ⟨.other 13, "add", [], 0, "", 4, "%entry", 4⟩
    let body : List (Nat × WorkerEvent) := [(0, .workGroupBegin), (0, .workItemBegin),
      (0, .instructionExecuted load), (0, .memoryLoad 1 64), (0, .instructionExecuted add), (0, .workItemComplete),
      (0, .workGroupComplete)]
    Real.sqrt 0 = 0 ∧ (∀ x y : ℝ, 0 ≤ x → x ≤ y → Real.sqrt x ≤ Real.sqrt y) ∧
      (∀ x : ℝ, 0 ≤ x → Real.sqrt (x * x) = x) ∧ ∃ after counts,
      System.initial.run ⟨0, 1, 2, 3⟩ (.kernelBegin "k" :: body.map fun e => .worker e.1 e.2) = .ok after ∧
      kernelEndCounts after.plugin.aggregate = .ok counts ∧
      0 ≤ (report id Real.sqrt after.plugin.aggregate counts).simdStdev ∧
      (report id Real.sqrt after.plugin.aggregate counts).simdStdev ≤ ((counts.simdMax : ℝ) - counts.simdMin) / 2 := by
  intro load add body
  obtain ⟨after, ran⟩ : ∃ after, System.initial.run ⟨0, 1, 2, 3⟩
      (.kernelBegin "k" :: body.map fun e => .worker e.1 e.2) = .ok after := ⟨_, rfl⟩
  have concrete : after = _ := Except.ok.inj (ran.symm.trans rfl)
  obtain ⟨counts, counted⟩ : ∃ counts, kernelEndCounts after.plugin.aggregate = .ok counts := by
    rw [concrete]
    unfold load add
    exact ⟨_, rfl⟩
  exact ⟨Real.sqrt_zero, fun _ _ _ le => Real.sqrt_le_sqrt le, fun _ => Real.sqrt_mul_self, _, counts, ran, counted,
    simd_stdev_between id Real.sqrt Real.sqrt_zero (fun _ _ _ le => Real.sqrt_le_sqrt le)
      (fun _ => Real.sqrt_mul_self) _ counts counted⟩

end Stdev

end AiwcProof
