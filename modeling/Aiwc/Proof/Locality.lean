import Mathlib
import Aiwc.Proof.Footprint

namespace AiwcProof

open AiwcModel

theorem toInt_of_lt {n : Nat} (small : n < 2 ^ 31) : toInt n = n := by
  have unsigned : n % 2 ^ 32 = n := Nat.mod_eq_of_lt (by omega)
  rw [toInt, unsigned, if_pos small, sub_zero]

theorem count_map_eq_sum {ks : List Nat} (g : Nat → Nat) (K : Nat) :
    (ks.map g).count K = ∑ k ∈ ks.toFinset.filter (g · = K), ks.count k := by
  have counted := Finset.sum_list_map_count ks fun k => if g k = K then 1 else 0
  simp only [smul_eq_mul, mul_ite, mul_one, mul_zero] at counted
  rw [Finset.sum_filter, List.count, List.countP_map, ← counted]
  clear counted
  induction ks with
  | nil => rfl
  | cons k rest ih =>
    simp only [List.countP_cons, List.map_cons, List.sum_cons, ih, Function.comp, beq_iff_eq]
    split_ifs <;> omega

theorem toFinset_map (ks : List Nat) (g : Nat → Nat) : (ks.map g).toFinset = ks.toFinset.image g := by
  ext K
  simp

theorem count_of_mem_addressCount {nskip : Nat} {ops : List Nat} (fits : ops.length < 2 ^ 32)
    {entry : Nat × Nat} (member : entry ∈ (addressCount nskip ops).entries) :
    entry.2 = (ops.map (· >>> nskip)).count entry.1 := by
  have found := UnorderedMap.mem_entries.mp member
  have bound : ops.countP (· >>> nskip = entry.1) < 2 ^ 32 := lt_of_le_of_lt (List.countP_le_length _) fits
  rw [addressCount, find?_countAddresses] at found
  split_ifs at found
  · cases found
  · simp only [UnorderedMap.find?_empty, Option.getD_none, zero_add, toUnsigned_of_lt bound,
      Option.some.injEq] at found
    rw [← found, List.count, List.countP_map]
    exact List.countP_congr fun address _ => by simp

theorem sum_entries_addressCount {M : Type} [AddCommMonoid M] (nskip : Nat) {ops : List Nat}
    (fits : ops.length < 2 ^ 32) (F : Nat → M) :
    ((addressCount nskip ops).entries.map fun entry => F entry.2).sum =
      ∑ k ∈ (ops.map (· >>> nskip)).toFinset, F ((ops.map (· >>> nskip)).count k) :=
  sum_entries_eq (fun k => (ops.map (· >>> nskip)).count k) (fun _ member => count_of_mem_addressCount fits member)
    (fun k => by rw [mem_keys_addressCount, List.mem_toFinset]) fun _ count => F count

section Entropy

variable {R : Type} [LinearOrderedField R] (log2 : R → R)

/-- The term `-prob * log2(prob)` of a key seen `count` times out of `total`. -/
def entropyTerm (total count : Nat) : R := -((count : R) / total * log2 ((count : R) / total))

/-- The entropy of the addresses of `ops` with `nskip` low bits dropped, over `total` accesses. -/
def levelEntropy (total : Nat) (ops : List Nat) (nskip : Nat) : R :=
  ∑ k ∈ (ops.map (· >>> nskip)).toFinset, entropyTerm log2 total ((ops.map (· >>> nskip)).count k)

theorem foldl_addressEntropy (total : Nat) (counts : List R) (init : R) :
    counts.foldl (fun entropy count => entropy - count / total * log2 (count / total)) init =
      init + (counts.map fun count => -(count / total * log2 (count / total))).sum := by
  induction counts generalizing init with
  | nil => simp
  | cons count rest ih =>
    rw [List.foldl_cons, ih, List.map_cons, List.sum_cons]
    ring

theorem addressEntropy_addressCount (total nskip : Nat) {ops : List Nat} (fits : ops.length < 2 ^ 32) :
    addressEntropy log2 total ((addressCount nskip ops).entries.map fun entry => (entry.2 : R)) =
      levelEntropy log2 total ops nskip := by
  rw [addressEntropy, foldl_addressEntropy, zero_add, List.map_map]
  exact sum_entries_addressCount nskip fits (entropyTerm log2 total)

variable {log2} (monotone : ∀ x y : R, 0 < x → x ≤ y → log2 x ≤ log2 y)

include monotone in
theorem mul_log2_le {x s : R} (low : 0 ≤ x) (below : x ≤ s) : x * log2 x ≤ x * log2 s := by
  rcases low.eq_or_lt with zero | positive
  · simp [← zero]
  · exact mul_le_mul_of_nonneg_left (monotone x s positive below) low

include monotone in
theorem entropyTerm_add (total a b : Nat) :
    entropyTerm log2 total (a + b) ≤ entropyTerm log2 total a + entropyTerm log2 total b := by
  have low : ∀ c : Nat, (0 : R) ≤ (c : R) / total := fun c => div_nonneg (Nat.cast_nonneg _) (Nat.cast_nonneg _)
  have first := mul_log2_le monotone (low a) (le_add_of_nonneg_right (low b))
  have second := mul_log2_le monotone (low b) (le_add_of_nonneg_left (low a))
  simp only [entropyTerm, Nat.cast_add, add_div]
  linarith [add_mul ((a : R) / total) ((b : R) / total) (log2 ((a : R) / total + (b : R) / total))]

include monotone in
theorem entropy_map_le (total : Nat) (ks : List Nat) (g : Nat → Nat) :
    ∑ K ∈ (ks.map g).toFinset, entropyTerm log2 total ((ks.map g).count K) ≤
      ∑ k ∈ ks.toFinset, entropyTerm log2 total (ks.count k) :=
  calc ∑ K ∈ (ks.map g).toFinset, entropyTerm log2 total ((ks.map g).count K)
      = ∑ K ∈ ks.toFinset.image g, entropyTerm log2 total (∑ k ∈ ks.toFinset.filter (g · = K), ks.count k) := by
        rw [toFinset_map]
        exact Finset.sum_congr rfl fun K _ => by rw [count_map_eq_sum]
    _ ≤ ∑ K ∈ ks.toFinset.image g, ∑ k ∈ ks.toFinset.filter (g · = K), entropyTerm log2 total (ks.count k) :=
        Finset.sum_le_sum fun K _ => Finset.le_sum_of_subadditive _ (by simp [entropyTerm])
          (entropyTerm_add monotone total) _ _
    _ = ∑ k ∈ ks.toFinset, entropyTerm log2 total (ks.count k) :=
        Finset.sum_fiberwise_of_maps_to (fun k member => Finset.mem_image_of_mem g member) _

include monotone in
theorem levelEntropy_succ_le (total : Nat) (ops : List Nat) (nskip : Nat) :
    levelEntropy log2 total ops (nskip + 1) ≤ levelEntropy log2 total ops nskip := by
  have shifted : ops.map (· >>> (nskip + 1)) = (ops.map (· >>> nskip)).map (· >>> 1) := by
    simp [Function.comp_def, Nat.shiftRight_add]
  rw [levelEntropy, levelEntropy, shifted]
  exact entropy_map_le monotone total _ _

include monotone in
theorem levelEntropy_nonneg (one : log2 1 = 0) (ops : List Nat) (nskip : Nat) :
    0 ≤ levelEntropy log2 ops.length ops nskip := by
  refine Finset.sum_nonneg fun k _ => ?_
  have low : (0 : R) ≤ ((ops.map (· >>> nskip)).count k : R) / ops.length :=
    div_nonneg (Nat.cast_nonneg _) (Nat.cast_nonneg _)
  have high : ((ops.map (· >>> nskip)).count k : R) / ops.length ≤ 1 :=
    div_le_one_of_le₀ (by exact_mod_cast (List.count_le_length _ _).trans (List.length_map _ _).le)
      (Nat.cast_nonneg _)
  have term := mul_log2_le monotone low high
  rw [one, mul_zero] at term
  simp only [entropyTerm]
  linarith

end Entropy

theorem report_entropies {R : Type} [LinearOrderedField R] (log2 sqrt : R → R) {agg : Aggregate}
    {counts : Counts} (counted : kernelEndCounts agg = .ok counts) (fits : agg.memoryOps.length < 2 ^ 31) :
    (report log2 sqrt agg counts).globalEntropy :: (report log2 sqrt agg counts).localEntropy =
      (List.range 11).map (levelEntropy log2 agg.memoryOps.length agg.memoryOps) := by
  obtain ⟨-, -, -, -, -, sorted, -⟩ := kernelEndCounts_ok counted
  have wide : agg.memoryOps.length < 2 ^ 32 := by omega
  have small : ∀ c ∈ counts.sortedCount, c < 2 ^ 31 := fun c member => by
    rw [sorted] at member
    obtain ⟨entry, inside, rfl⟩ := List.mem_map.mp member
    rw [count_of_mem_addressCount wide ((List.perm_insertionSort _ _).subset inside)]
    exact lt_of_le_of_lt ((List.count_le_length _ _).trans (List.length_map _ _).le) fits
  have global : (counts.sortedCount.map fun count => ((toInt count : Int) : R)).Perm
      ((addressCount 0 agg.memoryOps).entries.map fun entry => (entry.2 : R)) := by
    rw [List.map_congr_left fun c member => by rw [toInt_of_lt (small c member), Int.cast_natCast], sorted,
      List.map_map]
    exact (List.perm_insertionSort (fun a b : Nat × Nat => b.2 ≤ a.2) _).map _
  simp only [report, addressEntropy_perm log2 _ global, memoryAccessCount_eq counted wide,
    addressEntropy_addressCount _ _ _ wide, List.range_succ_eq_map, List.map_cons, List.map_map]
  rfl

/-- With `std::log2` growing on the positive numbers and `log2 1 = 0`, at every `kernelEnd`
    whose integer part returns over fewer than 2^31 addresses: the global memory address
    entropy followed by the ten local ones, one more low bit skipped each, is a non-increasing
    list of numbers that are not negative. -/
theorem entropy_profile {R : Type} [LinearOrderedField R] (log2 sqrt : R → R)
    (monotone : ∀ x y : R, 0 < x → x ≤ y → log2 x ≤ log2 y) (one : log2 1 = 0) (agg : Aggregate)
    (counts : Counts) (counted : kernelEndCounts agg = .ok counts) (fits : agg.memoryOps.length < 2 ^ 31) :
    ((report log2 sqrt agg counts).globalEntropy :: (report log2 sqrt agg counts).localEntropy).Sorted (· ≥ ·) ∧
      ∀ entropy ∈ (report log2 sqrt agg counts).globalEntropy :: (report log2 sqrt agg counts).localEntropy,
        0 ≤ entropy := by
  have antitone : Antitone (levelEntropy log2 agg.memoryOps.length agg.memoryOps) :=
    antitone_nat_of_succ_le (levelEntropy_succ_le monotone _ _)
  rw [report_entropies log2 sqrt counted fits]
  refine ⟨List.pairwise_map.mpr ((List.pairwise_lt_range 11).imp fun below => antitone below.le), ?_⟩
  simp only [List.mem_map]
  rintro _ ⟨nskip, -, rfl⟩
  exact levelEntropy_nonneg monotone one _ _

theorem entropy_profile_one_item :
    let load : Instruction := ⟨.load, "load", [], 1, "p", 3, "%entry", 1⟩
    let body : List (Nat × WorkerEvent) := [(0, .workGroupBegin), (0, .workItemBegin),
      (0, .instructionExecuted load), (0, .memoryLoad 1 64), (0, .memoryStore 1 65), (0, .workItemComplete),
      (0, .workGroupComplete)]
    (∀ x y : ℚ, 0 < x → x ≤ y → x - 1 ≤ y - 1) ∧ (1 : ℚ) - 1 = 0 ∧ ∃ after counts,
      System.initial.run ⟨0, 1, 2, 3⟩ (.kernelBegin "k" :: body.map fun e => .worker e.1 e.2) = .ok after ∧
      kernelEndCounts after.plugin.aggregate = .ok counts ∧ after.plugin.aggregate.memoryOps.length < 2 ^ 31 ∧
      ((report (fun x : ℚ => x - 1) id after.plugin.aggregate counts).globalEntropy ::
          (report (fun x : ℚ => x - 1) id after.plugin.aggregate counts).localEntropy).Sorted (· ≥ ·) ∧
        ∀ entropy ∈ (report (fun x : ℚ => x - 1) id after.plugin.aggregate counts).globalEntropy ::
            (report (fun x : ℚ => x - 1) id after.plugin.aggregate counts).localEntropy,
          0 ≤ entropy := by
  intro load body
  obtain ⟨after, ran⟩ : ∃ after, System.initial.run ⟨0, 1, 2, 3⟩
      (.kernelBegin "k" :: body.map fun e => .worker e.1 e.2) = .ok after := ⟨_, rfl⟩
  have concrete : after = _ := Except.ok.inj (ran.symm.trans rfl)
  obtain ⟨counts, counted⟩ : ∃ counts, kernelEndCounts after.plugin.aggregate = .ok counts := by
    rw [concrete]
    unfold load
    exact ⟨_, rfl⟩
  have fits : after.plugin.aggregate.memoryOps.length < 2 ^ 31 := by
    rw [concrete]
    decide
  exact ⟨fun _ _ _ below => sub_le_sub_right below 1, sub_self 1, _, counts, ran, counted, fits,
    entropy_profile (fun x : ℚ => x - 1) id (fun _ _ _ below => sub_le_sub_right below 1) (sub_self 1) _ counts
      counted fits⟩

theorem levelEntropy_replicate {R : Type} [LinearOrderedField R] {log2 : R → R} (one : log2 1 = 0)
    {n : Nat} (positive : n ≠ 0) (address nskip : Nat) :
    levelEntropy log2 n (List.replicate n address) nskip = 0 := by
  have ones : ((n : R) / n) = 1 := div_self (Nat.cast_ne_zero.mpr positive)
  simp [levelEntropy, entropyTerm, List.map_replicate, List.toFinset_replicate_of_ne_zero positive, ones, one]

/-- With `log2 1 = 0`, at every `kernelEnd` whose integer part returns over fewer than 2^31
    accesses that all go to one address: the total and the 90% memory footprints are `1`, and
    the global and every local memory address entropy are `0`. -/
theorem single_address_profile {R : Type} [LinearOrderedField R] (log2 sqrt : R → R) (one : log2 1 = 0)
    (agg : Aggregate) (counts : Counts) (counted : kernelEndCounts agg = .ok counts)
    (fits : agg.memoryOps.length < 2 ^ 31) (address : Nat) (nonempty : agg.memoryOps ≠ [])
    (same : ∀ a ∈ agg.memoryOps, a = address) :
    counts.totalMemoryFootprint = 1 ∧ counts.uniqueMemoryAddresses = 1 ∧
      ∀ entropy ∈ (report log2 sqrt agg counts).globalEntropy :: (report log2 sqrt agg counts).localEntropy,
        entropy = 0 := by
  obtain ⟨-, -, -, -, -, sorted, accesses, covered, footprint⟩ := kernelEndCounts_ok counted
  have positive : agg.memoryOps.length ≠ 0 := fun none => nonempty (List.length_eq_zero.mp none)
  have replicated : agg.memoryOps = List.replicate agg.memoryOps.length address :=
    List.eq_replicate_iff.mpr ⟨rfl, same⟩
  have single : counts.totalMemoryFootprint = 1 := by
    rw [footprint, size_addressCount, ← List.card_toFinset, replicated, List.map_replicate,
      List.toFinset_replicate_of_ne_zero positive, Finset.card_singleton]
  have total := memoryAccessCount_eq counted (by omega)
  obtain ⟨c, only⟩ : ∃ c, counts.sortedCount = [c] := by
    rw [← List.length_eq_one, sorted, List.length_map, length_sortDescending, ← UnorderedMap.size, ← footprint,
      single]
  rw [only, List.sum_singleton] at accesses
  have threshold := significantCount_le c
  have reached : 0 < significantCount c := by
    rw [significantCount, toUnsigned_of_lt (by omega)]
    omega
  rw [only, accesses] at covered
  simp only [coverage, reached, if_true, Nat.not_lt.mpr (by omega : significantCount c ≤ 0 + c), if_false,
    Except.ok.injEq] at covered
  refine ⟨single, covered.symm, ?_⟩
  rw [report_entropies log2 sqrt counted fits, replicated, List.length_replicate]
  simp only [List.mem_map]
  rintro _ ⟨nskip, -, rfl⟩
  exact levelEntropy_replicate one positive address nskip

theorem single_address_profile_load_store :
    let load : Instruction := ⟨.load, "load", [], 1, "p", 3, "%entry", 1⟩
    let body : List (Nat × WorkerEvent) := [(0, .workGroupBegin), (0, .workItemBegin),
      (0, .instructionExecuted load), (0, .memoryLoad 1 64), (0, .memoryStore 1 64), (0, .workItemComplete),
      (0, .workGroupComplete)]
    ∃ after counts,
      System.initial.run ⟨0, 1, 2, 3⟩ (.kernelBegin "k" :: body.map fun e => .worker e.1 e.2) = .ok after ∧
      kernelEndCounts after.plugin.aggregate = .ok counts ∧ (1 : ℚ) - 1 = 0 ∧
      after.plugin.aggregate.memoryOps.length < 2 ^ 31 ∧ after.plugin.aggregate.memoryOps ≠ [] ∧
      (∀ a ∈ after.plugin.aggregate.memoryOps, a = 64) ∧
      counts.totalMemoryFootprint = 1 ∧ counts.uniqueMemoryAddresses = 1 ∧
      ∀ entropy ∈ (report (fun x : ℚ => x - 1) id after.plugin.aggregate counts).globalEntropy ::
        (report (fun x : ℚ => x - 1) id after.plugin.aggregate counts).localEntropy, entropy = 0 := by
  intro load body
  obtain ⟨after, ran⟩ : ∃ after, System.initial.run ⟨0, 1, 2, 3⟩
      (.kernelBegin "k" :: body.map fun e => .worker e.1 e.2) = .ok after := ⟨_, rfl⟩
  have concrete : after = _ := Except.ok.inj (ran.symm.trans rfl)
  have ops : after.plugin.aggregate.memoryOps = [64, 64] := by rw [concrete]; rfl
  obtain ⟨counts, counted⟩ : ∃ counts, kernelEndCounts after.plugin.aggregate = .ok counts := by
    rw [concrete]
    unfold load
    exact ⟨_, rfl⟩
  have fits : after.plugin.aggregate.memoryOps.length < 2 ^ 31 := by rw [ops]; decide
  have nonempty : after.plugin.aggregate.memoryOps ≠ [] := by rw [ops]; decide
  have same : ∀ a ∈ after.plugin.aggregate.memoryOps, a = 64 := by rw [ops]; decide
  exact ⟨_, counts, ran, counted, sub_self 1, fits, nonempty, same,
    single_address_profile (fun x : ℚ => x - 1) id (sub_self 1) _ counts counted fits 64 nonempty same⟩

end AiwcProof
