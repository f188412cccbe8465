import Aiwc.Proof.BranchHistory

namespace AiwcProof

open AiwcModel

section Loop

variable (branch : List Bool) {bound : Nat}

theorem windowLoop_endless (wide : 2 ^ 32 ≤ bound) (fuel i : Nat) (patterns : UnorderedMap String Nat)
    (counter : i < 2 ^ 32) : windowLoop branch bound fuel i patterns = none := by
  induction fuel generalizing i patterns with
  | zero => simp [windowLoop, show i < bound by omega]
  | succ fuel ih => simp [windowLoop, show i < bound by omega, ih _ _ (toUnsigned_lt _)]

theorem windowLoop_ends (narrow : bound < 2 ^ 32) (k fuel i : Nat) (patterns : UnorderedMap String Nat)
    (remaining : i + k = bound) (enough : k ≤ fuel) :
    windowLoop branch bound fuel i patterns = some ((List.range' i k).foldl
      (fun patterns i => patterns.modify (historyPattern branch i) fun c => toUnsigned (c + 1)) patterns, k) := by
  induction k generalizing fuel i patterns with
  | zero => cases fuel <;> simp [windowLoop, show ¬i < bound by omega]
  | succ k ih =>
    obtain ⟨fuel, rfl⟩ : ∃ rest, fuel = rest + 1 := ⟨fuel - 1, by omega⟩
    simp [windowLoop, show i < bound by omega, toUnsigned_of_lt (show i + 1 < 2 ^ 32 by omega),
      ih fuel (i + 1) _ (by omega) (by omega), List.range'_succ]

theorem historyPatterns_loop :
    (branch.length - 15 < 2 ^ 32 →
      windowLoop branch (branch.length - 15) (branch.length - 15) 0 .empty =
        some (countPatterns branch, branch.length - 15) ∧
      historyPatterns branch = .ok (countPatterns branch)) ∧
    (2 ^ 32 ≤ branch.length - 15 →
      (∀ fuel, windowLoop branch (branch.length - 15) fuel 0 .empty = none) ∧
      historyPatterns branch = .error (.endless "history patterns")) := by
  refine ⟨fun narrow => ⟨?_, by rw [historyPatterns, if_pos narrow]⟩,
    fun wide => ⟨fun fuel => windowLoop_endless branch wide fuel 0 .empty (by decide), ?_⟩⟩
  · rw [windowLoop_ends branch narrow (branch.length - 15) _ 0 _ (by omega) le_rfl, ← List.range_eq_range']
    rfl
  · rw [historyPatterns, if_neg (Nat.not_lt.mpr wide)]

end Loop

section Totals

theorem valueSum_foldl_increment {κ : Type} [DecidableEq κ] (keys : List κ) (patterns : UnorderedMap κ Nat)
    (fits : patterns.valueSum + keys.length < 2 ^ 32) :
    (keys.foldl (fun patterns key => patterns.modify key fun c => toUnsigned (c + 1)) patterns).valueSum =
      patterns.valueSum + keys.length := by
  induction keys generalizing patterns with
  | nil => rfl
  | cons key rest ih =>
    rw [List.length_cons] at fits ⊢
    have counted := patterns.getD_find?_le_valueSum key
    have changed := patterns.valueSum_modify key fun c => toUnsigned (c + 1)
    rw [toUnsigned_of_lt (by omega)] at changed
    rw [List.foldl_cons, ih _ (by omega)]
    omega

theorem valueSum_countPatterns (branch : List Bool) (narrow : branch.length - 15 < 2 ^ 32) :
    (countPatterns branch).valueSum = branch.length - 15 := by
  have total := valueSum_foldl_increment ((List.range (branch.length - 15)).map (historyPattern branch))
    .empty (by simpa using narrow)
  simpa [countPatterns, List.foldl_map] using total

variable {R : Type} [LinearOrderedField R] (log2 : R → R)

theorem n_foldl_addPattern (entries : List (String × Nat)) (sums : BranchEntropy R)
    (counted : sums.n < 2 ^ 32) :
    (entries.foldl (addPattern log2) sums).n = toUnsigned (sums.n + (entries.map Prod.snd).sum) := by
  induction entries generalizing sums with
  | nil => simp [toUnsigned_of_lt counted]
  | cons entry rest ih =>
    rw [List.foldl_cons, ih _ (toUnsigned_lt _)]
    simp only [addPattern, toUnsigned, List.map_cons, List.sum_cons]
    omega

theorem branchEntropy_n (histories : List (UnorderedMap String Nat)) :
    (branchEntropy log2 histories).n = toUnsigned ((histories.map UnorderedMap.valueSum).sum) := by
  suffices outer : ∀ (sums : BranchEntropy R), sums.n < 2 ^ 32 →
      (histories.foldl (fun sums h => h.entries.foldl (addPattern log2) sums) sums).n =
        toUnsigned (sums.n + (histories.map UnorderedMap.valueSum).sum) by
    simpa using outer ⟨0, 0, 0, 0⟩ (Nat.two_pow_pos 32)
  induction histories with
  | nil => exact fun sums counted => by simp [toUnsigned_of_lt counted]
  | cons h rest ih =>
    intro sums counted
    rw [List.foldl_cons, ih _ (by rw [n_foldl_addPattern log2 _ _ counted]; exact toUnsigned_lt _),
      n_foldl_addPattern log2 _ _ counted]
    simp only [toUnsigned, List.map_cons, List.sum_cons, UnorderedMap.valueSum]
    omega

theorem branchHistories_counted (agg : Aggregate)
    (narrow : ∀ entry ∈ agg.branchOps.entries, entry.2.length - 15 < 2 ^ 32) :
    (∀ entry ∈ agg.branchOps.entries, 16 ≤ entry.2.length →
      windowLoop entry.2 (entry.2.length - 15) (entry.2.length - 15) 0 .empty =
        some (countPatterns entry.2, entry.2.length - 15)) ∧
    ∃ histories, branchHistories agg = .ok histories ∧
      histories.map UnorderedMap.valueSum =
        (agg.branchOps.entries.filter fun entry => 16 ≤ entry.2.length).map (·.2.length - 15) ∧
      (branchEntropy log2 histories).n =
        toUnsigned (((agg.branchOps.entries.filter fun entry => 16 ≤ entry.2.length).map
          (·.2.length - 15)).sum) := by
  have counted : ((agg.branchOps.entries.filter fun entry => 16 ≤ entry.2.length).map (countPatterns ·.2)).map
      UnorderedMap.valueSum = (agg.branchOps.entries.filter fun entry => 16 ≤ entry.2.length).map (·.2.length - 15) := by
    rw [List.map_map]
    exact List.map_congr_left fun entry member =>
      valueSum_countPatterns entry.2 (narrow entry (List.mem_of_mem_filter member))
  refine ⟨fun entry member _ => ((historyPatterns_loop entry.2).1 (narrow entry member)).1, _, ?_, counted,
    by rw [branchEntropy_n, counted]⟩
  rw [branchHistories, mapM_historyPatterns, if_pos]
  simp only [List.all_eq_true, List.mem_filter, decide_eq_true_eq]
  exact fun entry member => narrow entry member.1

end Totals

/-- A line of 2^32 + 15 booleans, a length `size_t` holds: `unsigned i` never reaches the
    bound 2^32, so its window loop never ends. Two lines of 2^31 + 15 booleans: both loops end
    with 2^31 windows counted, but `N` adds them up to 2^32 in an `unsigned` and is 0. -/
theorem history_windows_wrap {R : Type} [LinearOrderedField R] (log2 : R → R)
    (long first second : List Bool) (longLine : long.length = 2 ^ 32 + 15)
    (firstLine : first.length = 2 ^ 31 + 15) (secondLine : second.length = 2 ^ 31 + 15) :
    (∀ fuel, windowLoop long (long.length - 15) fuel 0 .empty = none) ∧
      branchHistories { Aggregate.empty with branchOps := UnorderedMap.empty.modify 7 (· ++ long) } =
        .error (.endless "history patterns") ∧
      ∃ histories, branchHistories { Aggregate.empty with
          branchOps := (UnorderedMap.empty.modify 7 (· ++ first)).modify 9 (· ++ second) } = .ok histories ∧
        histories.map UnorderedMap.valueSum = [2 ^ 31, 2 ^ 31] ∧ (branchEntropy log2 histories).n = 0 := by
  have endless := (historyPatterns_loop long).2 (by omega)
  have one : (UnorderedMap.empty.modify 7 (· ++ long) : UnorderedMap Nat (List Bool)).entries = [(7, long)] := rfl
  have two : ((UnorderedMap.empty.modify 7 (· ++ first)).modify 9 (· ++ second) :
      UnorderedMap Nat (List Bool)).entries = [(7, first), (9, second)] := rfl
  refine ⟨endless.1, ?_, ?_⟩
  · rw [branchHistories, one, mapM_historyPatterns]
    simp [longLine]
  · obtain ⟨_, histories, found, sums, total⟩ := branchHistories_counted log2
      { Aggregate.empty with branchOps := (UnorderedMap.empty.modify 7 (· ++ first)).modify 9 (· ++ second) }
      (by simp [two, firstLine, secondLine])
    exact ⟨histories, found, by simpa [two, firstLine, secondLine] using sums,
      by simpa [two, firstLine, secondLine, toUnsigned] using total⟩

theorem history_windows_wrap_replicate :
    (List.replicate (2 ^ 32 + 15) false).length = 2 ^ 32 + 15 ∧
      (List.replicate (2 ^ 31 + 15) false).length = 2 ^ 31 + 15 ∧
      (List.replicate (2 ^ 31 + 15) true).length = 2 ^ 31 + 15 ∧
      (∀ fuel, windowLoop (List.replicate (2 ^ 32 + 15) false)
        ((List.replicate (2 ^ 32 + 15) false).length - 15) fuel 0 .empty = none) ∧
      branchHistories { Aggregate.empty with
          branchOps := UnorderedMap.empty.modify 7 (· ++ List.replicate (2 ^ 32 + 15) false) } =
        .error (.endless "history patterns") ∧
      ∃ histories, branchHistories { Aggregate.empty with
          branchOps := (UnorderedMap.empty.modify 7 (· ++ List.replicate (2 ^ 31 + 15) false)).modify 9
            (· ++ List.replicate (2 ^ 31 + 15) true) } = .ok histories ∧
        histories.map UnorderedMap.valueSum = [2 ^ 31, 2 ^ 31] ∧ (branchEntropy (id : ℚ → ℚ) histories).n = 0 :=
  ⟨List.length_replicate _ _, List.length_replicate _ _, List.length_replicate _ _,
    history_windows_wrap id _ _ _ (List.length_replicate _ _) (List.length_replicate _ _)
      (List.length_replicate _ _)⟩

end AiwcProof
