import Mathlib
import Aiwc.Proof.Windows

namespace AiwcProof

open AiwcModel

section Windows

/-- The history patterns of a branch line, as the comments of `kernelEnd` describe them: every
    run of 16 consecutive booleans, written as `'1'` for taken and `'0'` for not taken. -/
def windowStrings (branch : List Bool) : List String :=
  (List.range (branch.length - 15)).map fun i =>
    String.mk (((branch.drop i).take 16).map fun taken => if taken then '1' else '0')

theorem historyPattern_eq_window {branch : List Bool} {i : Nat} (inside : i + 16 ≤ branch.length)
    (fits : branch.length ≤ 2 ^ 32) :
    historyPattern branch i = String.mk (((branch.drop i).take 16).map fun taken => if taken then '1' else '0') := by
  rw [historyPattern]
  congr 1
  apply List.ext_getElem
  · simp
    omega
  · intro j inRange _
    simp only [List.length_map, List.length_range] at inRange
    simp [List.getElem_take, List.getElem_drop, toUnsigned_of_lt (show i + j < 2 ^ 32 by omega),
      List.getElem?_eq_getElem (show i + j < branch.length by omega)]

/-- For a line of at most 2^32 booleans, `H` holds each pattern with the number of windows that
    show it, and no pattern that no window shows. -/
theorem countPatterns_windows (branch : List Bool) (fits : branch.length ≤ 2 ^ 32) (pattern : String) :
    (countPatterns branch).find? pattern =
      if (windowStrings branch).count pattern = 0 then none else some ((windowStrings branch).count pattern) := by
  have windows : (List.range (branch.length - 15)).map (historyPattern branch) = windowStrings branch :=
    List.map_congr_left fun i member => historyPattern_eq_window (by simp at member; omega) fits
  have counted := UnorderedMap.find?_foldl_increment ((List.range (branch.length - 15)).map (historyPattern branch))
    .empty pattern
  have bound : (windowStrings branch).count pattern < 2 ^ 32 :=
    lt_of_le_of_lt (List.count_le_length _ _) (by simp [windowStrings]; omega)
  rw [List.foldl_map, windows] at counted
  simpa [toUnsigned_of_lt bound] using counted

theorem countPatterns_windows_seventeen :
    (true :: List.replicate 15 false ++ [true]).length ≤ 2 ^ 32 ∧
      (countPatterns (true :: List.replicate 15 false ++ [true])).find? "1000000000000000" =
        if (windowStrings (true :: List.replicate 15 false ++ [true])).count "1000000000000000" = 0 then none
        else some ((windowStrings (true :: List.replicate 15 false ++ [true])).count "1000000000000000") :=
  ⟨by decide, countPatterns_windows _ (by decide) _⟩

end Windows

section Entropy

variable {R : Type} [LinearOrderedField R]

/-- The entropy accumulators after patterns whose counts add up to `total`: the two Yokota
    sums are not negative, and the linear sum lies between `0` and `total`. -/
def EntropyBounds (total : R) (sums : BranchEntropy R) : Prop :=
  0 ≤ sums.yokotaEntropy ∧ 0 ≤ sums.yokotaEntropyPerWorkload ∧ 0 ≤ sums.averageEntropy ∧
    sums.averageEntropy ≤ total

variable {log2 : R → R} (nonpos : ∀ x : R, 0 < x → x ≤ 1 → log2 x ≤ 0)

include nonpos in
theorem addPattern_bounds {total : R} {sums : BranchEntropy R} (bounds : EntropyBounds total sums)
    (h : String × Nat) : EntropyBounds (total + h.2) (addPattern log2 sums h) := by
  obtain ⟨yokota, perWorkload, linear, below⟩ := bounds
  set p : R := ((h.1.toList.count '1' : Nat) : R) / ((h.1.toList.count '0' + h.1.toList.count '1' : Nat) : R)
    with probability
  have low : 0 ≤ p := div_nonneg (Nat.cast_nonneg _) (Nat.cast_nonneg _)
  have high : p ≤ 1 := div_le_one_of_le₀ (by push_cast; linarith [(Nat.cast_nonneg _ : (0 : R) ≤
    (h.1.toList.count '0' : Nat))]) (Nat.cast_nonneg _)
  have count : (0 : R) ≤ h.2 := Nat.cast_nonneg _
  have term : p ≠ 0 → 0 ≤ -(p * log2 p) := fun nonzero =>
    neg_nonneg.mpr (mul_nonpos_of_nonneg_of_nonpos low (nonpos p (lt_of_le_of_ne low (Ne.symm nonzero)) high))
  have linearLow : 0 ≤ 2 * min p (1 - p) := mul_nonneg zero_le_two (le_min low (sub_nonneg.mpr high))
  have linearHigh : 2 * min p (1 - p) ≤ 1 := by linarith [min_le_left p (1 - p), min_le_right p (1 - p)]
  simp only [EntropyBounds, addPattern, ← probability]
  refine ⟨?_, ?_, add_nonneg linear (mul_nonneg count linearLow),
    add_le_add below (mul_le_of_le_one_right count linearHigh)⟩
  · split_ifs with nonzero
    · linarith [mul_nonneg count (term nonzero)]
    · exact yokota
  · split_ifs with nonzero
    · linarith [term nonzero]
    · exact perWorkload

include nonpos in
theorem foldl_addPattern_bounds (entries : List (String × Nat)) {total : R} {sums : BranchEntropy R}
    (bounds : EntropyBounds total sums) :
    EntropyBounds (total + ((entries.map Prod.snd).sum : Nat)) (entries.foldl (addPattern log2) sums) := by
  induction entries generalizing total sums with
  | nil => simpa using bounds
  | cons h rest ih =>
    have later := ih (addPattern_bounds nonpos bounds h)
    simpa [add_assoc] using later

include nonpos in
theorem foldl_histories_bounds (histories : List (UnorderedMap String Nat)) {total : R}
    {sums : BranchEntropy R} (bounds : EntropyBounds total sums) :
    EntropyBounds (total + ((histories.map UnorderedMap.valueSum).sum : Nat))
      (histories.foldl (fun sums h => h.entries.foldl (addPattern log2) sums) sums) := by
  induction histories generalizing total sums with
  | nil => simpa using bounds
  | cons h rest ih =>
    have later := ih (foldl_addPattern_bounds nonpos h.entries bounds)
    simpa [UnorderedMap.valueSum, add_assoc] using later

include nonpos in
/-- With `std::log2` not positive on `(0, 1]`, both Yokota entropies `kernelEnd` reports are
    not negative; while `N` does not wrap, the average linear branch entropy lies in `[0, 1]`. -/
theorem branchEntropy_bounds (histories : List (UnorderedMap String Nat)) :
    0 ≤ (branchEntropy log2 histories).yokotaEntropy ∧ 0 ≤ (branchEntropy log2 histories).yokotaEntropyPerWorkload ∧
      ((histories.map UnorderedMap.valueSum).sum < 2 ^ 32 →
        0 ≤ (branchEntropy log2 histories).averageEntropy ∧ (branchEntropy log2 histories).averageEntropy ≤ 1) := by
  obtain ⟨yokota, perWorkload, low, high⟩ :=
    foldl_histories_bounds nonpos histories (⟨le_rfl, le_rfl, le_rfl, le_rfl⟩ : EntropyBounds (0 : R) ⟨0, 0, 0, 0⟩)
  refine ⟨yokota, perWorkload, fun fits => ?_⟩
  have counted := branchEntropy_n log2 histories
  rw [toUnsigned_of_lt fits] at counted
  change (branchEntropy log2 histories).n = _ at counted
  change 0 ≤ _ / ((branchEntropy log2 histories).n : R) ∧ _ / ((branchEntropy log2 histories).n : R) ≤ 1
  rw [counted]
  rw [zero_add] at high
  exact ⟨div_nonneg low (Nat.cast_nonneg _), div_le_one_of_le₀ high (Nat.cast_nonneg _)⟩

theorem branchEntropy_bounds_seventeen :
    (∀ x : ℚ, 0 < x → x ≤ 1 → x - 1 ≤ 0) ∧
      0 ≤ (branchEntropy (fun x : ℚ => x - 1) [countPatterns (true :: List.replicate 15 false ++ [true])]).yokotaEntropy ∧
      0 ≤ (branchEntropy (fun x : ℚ => x - 1)
        [countPatterns (true :: List.replicate 15 false ++ [true])]).yokotaEntropyPerWorkload ∧
      (([countPatterns (true :: List.replicate 15 false ++ [true])].map UnorderedMap.valueSum).sum < 2 ^ 32 →
        0 ≤ (branchEntropy (fun x : ℚ => x - 1) [countPatterns (true :: List.replicate 15 false ++ [true])]).averageEntropy ∧
          (branchEntropy (fun x : ℚ => x - 1)
            [countPatterns (true :: List.replicate 15 false ++ [true])]).averageEntropy ≤ 1) :=
  ⟨fun _ _ high => by linarith, branchEntropy_bounds (fun _ _ high => by linarith) _⟩

end Entropy

section Flat

def flatPattern (taken : Bool) : String := String.mk (List.replicate 16 (if taken then '1' else '0'))

theorem historyPattern_flat {branch : List Bool} {taken : Bool} (constant : ∀ b ∈ branch, b = taken) {i : Nat}
    (inside : i < branch.length - 15) : historyPattern branch i = flatPattern taken := by
  rw [historyPattern, flatPattern]
  congr 1
  refine List.eq_replicate_iff.mpr ⟨by simp, fun c member => ?_⟩
  obtain ⟨j, range, rfl⟩ := List.mem_map.mp member
  have index : toUnsigned (i + j) < branch.length :=
    lt_of_le_of_lt (Nat.mod_le _ _) (by rw [List.mem_range] at range; omega)
  rw [List.getD_eq_getElem?_getD, List.getElem?_eq_getElem index, Option.getD_some,
    constant _ (List.getElem_mem index)]

theorem mem_entries_countPatterns {branch : List Bool} {entry : String × Nat}
    (member : entry ∈ (countPatterns branch).entries) :
    ∃ i < branch.length - 15, entry.1 = historyPattern branch i := by
  have counted := UnorderedMap.find?_foldl_increment ((List.range (branch.length - 15)).map (historyPattern branch))
    .empty entry.1
  rw [List.foldl_map] at counted
  change (countPatterns branch).find? entry.1 = _ at counted
  rw [UnorderedMap.mem_entries.mp member] at counted
  split_ifs at counted with none
  · cases counted
  · obtain ⟨i, range, shown⟩ := List.mem_map.mp (List.count_pos_iff.mp (Nat.pos_of_ne_zero none))
    exact ⟨i, List.mem_range.mp range, shown.symm⟩

variable {R : Type} [LinearOrderedField R] {log2 : R → R} (one : log2 1 = 0)

def ZeroEntropy (sums : BranchEntropy R) : Prop :=
  sums.yokotaEntropy = 0 ∧ sums.yokotaEntropyPerWorkload = 0 ∧ sums.averageEntropy = 0

include one in
theorem addPattern_flat {sums : BranchEntropy R} (zero : ZeroEntropy sums) (taken : Bool) (count : Nat) :
    ZeroEntropy (addPattern log2 sums (flatPattern taken, count)) := by
  obtain ⟨yokota, perWorkload, linear⟩ := zero
  cases taken
  · have ones : (flatPattern false).toList.count '1' = 0 := rfl
    have zeros : (flatPattern false).toList.count '0' = 16 := rfl
    simp only [ZeroEntropy, addPattern, ones, zeros]
    norm_num [yokota, perWorkload, linear]
  · have ones : (flatPattern true).toList.count '1' = 16 := rfl
    have zeros : (flatPattern true).toList.count '0' = 0 := rfl
    simp only [ZeroEntropy, addPattern, ones, zeros]
    norm_num [yokota, perWorkload, linear, one]

include one in
theorem foldl_addPattern_flat (entries : List (String × Nat))
    (flat : ∀ entry ∈ entries, ∃ taken, entry.1 = flatPattern taken) {sums : BranchEntropy R}
    (zero : ZeroEntropy sums) : ZeroEntropy (entries.foldl (addPattern log2) sums) := by
  induction entries generalizing sums with
  | nil => exact zero
  | cons entry rest ih =>
    obtain ⟨taken, shown⟩ := flat entry (List.mem_cons_self _ _)
    have step := addPattern_flat one zero taken entry.2
    rw [← shown] at step
    exact ih (fun e member => flat e (List.mem_cons_of_mem _ member)) step

include one in
theorem foldl_histories_flat (histories : List (UnorderedMap String Nat))
    (flat : ∀ h ∈ histories, ∀ entry ∈ h.entries, ∃ taken, entry.1 = flatPattern taken) {sums : BranchEntropy R}
    (zero : ZeroEntropy sums) :
    ZeroEntropy (histories.foldl (fun sums h => h.entries.foldl (addPattern log2) sums) sums) := by
  induction histories generalizing sums with
  | nil => exact zero
  | cons h rest ih =>
    exact ih (fun h' member => flat h' (List.mem_cons_of_mem _ member))
      (foldl_addPattern_flat one h.entries (flat h (List.mem_cons_self _ _)) zero)

include one in
/-- With `log2 1 = 0`, when the conditional branch at every line went the same way each time
    and no line's window count reaches 2^32: the branch history loop ends, and the Yokota
    branch entropy, the Yokota entropy per workload and the average linear branch entropy
    are `0`. -/
theorem constant_branches_entropy (agg : Aggregate)
    (constant : ∀ entry ∈ agg.branchOps.entries, ∃ taken, ∀ b ∈ entry.2, b = taken)
    (fits : ∀ entry ∈ agg.branchOps.entries, entry.2.length - 15 < 2 ^ 32) :
    ∃ histories, branchHistories agg = .ok histories ∧ (branchEntropy log2 histories).yokotaEntropy = 0 ∧
      (branchEntropy log2 histories).yokotaEntropyPerWorkload = 0 ∧
      (branchEntropy log2 histories).averageEntropy = 0 := by
  have ended : ((agg.branchOps.entries.filter fun entry => 16 ≤ entry.2.length).all
      fun entry => entry.2.length - 15 < 2 ^ 32) = true :=
    List.all_eq_true.mpr fun entry member => decide_eq_true (fits entry (List.mem_of_mem_filter member))
  have flat : ∀ h ∈ (agg.branchOps.entries.filter fun entry => 16 ≤ entry.2.length).map (countPatterns ·.2),
      ∀ entry ∈ h.entries, ∃ taken, entry.1 = flatPattern taken := by
    intro h member entry inside
    obtain ⟨line, kept, rfl⟩ := List.mem_map.mp member
    obtain ⟨taken, same⟩ := constant line (List.mem_of_mem_filter kept)
    obtain ⟨i, position, shown⟩ := mem_entries_countPatterns inside
    exact ⟨taken, shown.trans (historyPattern_flat same position)⟩
  obtain ⟨yokota, perWorkload, linear⟩ := foldl_histories_flat one _ flat
    (⟨rfl, rfl, rfl⟩ : ZeroEntropy (⟨0, 0, 0, 0⟩ : BranchEntropy R))
  refine ⟨_, by rw [branchHistories, mapM_historyPatterns, if_pos ended], yokota, perWorkload, ?_⟩
  change _ / _ = (0 : R)
  rw [linear, zero_div]

theorem constant_branches_entropy_seventeen :
    let agg : Aggregate := { Aggregate.empty with branchOps := UnorderedMap.empty.modify 12 fun _ => List.replicate 17 true }
    (1 : ℚ) - 1 = 0 ∧ (∀ entry ∈ agg.branchOps.entries, ∃ taken, ∀ b ∈ entry.2, b = taken) ∧
      (∀ entry ∈ agg.branchOps.entries, entry.2.length - 15 < 2 ^ 32) ∧
      ∃ histories, branchHistories agg = .ok histories ∧
        (branchEntropy (fun x : ℚ => x - 1) histories).yokotaEntropy = 0 ∧
        (branchEntropy (fun x : ℚ => x - 1) histories).yokotaEntropyPerWorkload = 0 ∧
        (branchEntropy (fun x : ℚ => x - 1) histories).averageEntropy = 0 := by
  intro agg
  have entries : agg.branchOps.entries = [(12, List.replicate 17 true)] := rfl
  have constant : ∀ entry ∈ agg.branchOps.entries, ∃ taken, ∀ b ∈ entry.2, b = taken := by
    intro entry member
    rw [entries, List.mem_singleton] at member
    exact ⟨true, fun _ inside => List.eq_of_mem_replicate (member ▸ inside)⟩
  have fits : ∀ entry ∈ agg.branchOps.entries, entry.2.length - 15 < 2 ^ 32 := by
    intro entry member
    rw [entries, List.mem_singleton] at member
    rw [member, List.length_replicate]
    norm_num
  exact ⟨sub_self 1, constant, fits, @constant_branches_entropy ℚ _ (fun x => x - 1) (sub_self 1) agg constant fits⟩

end Flat

end AiwcProof
