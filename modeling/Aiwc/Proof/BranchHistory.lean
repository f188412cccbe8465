import Aiwc.Proof.MergeOrder

namespace AiwcProof

open AiwcModel UnorderedMap

/-- A work-group's booleans at a branch line. -/
def contribution (line : Nat) (state : WorkerState) : List Bool := (state.branchOps.find? line).getD []

section Contributions

variable {β : Type} (line : Nat)

theorem getD_foldl_merge (states : List WorkerState) (agg : Aggregate) :
    ((states.foldl Aggregate.merge agg).branchOps.find? line).getD [] =
      (agg.branchOps.find? line).getD [] ++ (states.map (contribution line)).flatten := by
  induction states generalizing agg with
  | nil => simp
  | cons state rest ih =>
    rw [List.foldl_cons, ih]
    simp [Aggregate.merge, getD_find?_appendEntries, contribution]

theorem isSome_foldl_merge (states : List WorkerState) (agg : Aggregate) :
    ((states.foldl Aggregate.merge agg).branchOps.find? line).isSome =
      ((agg.branchOps.find? line).isSome || states.any fun state => !(contribution line state).isEmpty) := by
  induction states generalizing agg with
  | nil => simp
  | cons state rest ih =>
    rw [List.foldl_cons, ih]
    simp [Aggregate.merge, isSome_find?_appendEntries, contribution, Bool.or_assoc]

theorem flatten_filter_nonempty (lists : List (List β)) :
    (lists.filter fun l => !l.isEmpty).flatten = lists.flatten := by
  induction lists with
  | nil => rfl
  | cons l rest ih => cases l <;> simp [ih]

theorem flatten_eq_of_single {lists lists' : List (List β)} (reordered : lists.Perm lists')
    (single : (lists.filter fun l => !l.isEmpty).length ≤ 1) : lists.flatten = lists'.flatten := by
  rw [← flatten_filter_nonempty lists, ← flatten_filter_nonempty lists']
  have moved := reordered.filter fun l => !l.isEmpty
  rcases Nat.le_one_iff_eq_zero_or_eq_one.mp single with none | one
  · rw [List.length_eq_zero.mp none] at moved ⊢
    rw [← moved.nil_eq]
  · obtain ⟨l, only⟩ := List.length_eq_one.mp one
    rw [only] at moved ⊢
    rw [List.singleton_perm.mp moved]

theorem option_eq_of_isSome_getD {x y : Option (List β)} (present : x.isSome = y.isSome)
    (value : x.getD [] = y.getD []) : x = y := by
  cases x <;> cases y <;> simp_all

theorem find?_foldl_merge_single (agg : Aggregate) {states states' : List WorkerState}
    (reordered : states.Perm states')
    (single : (states.filter fun state => !(contribution line state).isEmpty).length ≤ 1) :
    (states.foldl Aggregate.merge agg).branchOps.find? line =
      (states'.foldl Aggregate.merge agg).branchOps.find? line := by
  apply option_eq_of_isSome_getD
  · rw [isSome_foldl_merge, isSome_foldl_merge]
    congr 1
    exact Bool.eq_iff_iff.mpr (by simp only [List.any_eq_true, reordered.mem_iff])
  · rw [getD_foldl_merge, getD_foldl_merge, flatten_eq_of_single (reordered.map _)]
    simpa [List.filter_map, Function.comp_def] using single

end Contributions

section Entropy

variable {R : Type} [LinearOrderedField R] (log2 sqrt : R → R)

theorem mapM_historyPatterns (entries : List (Nat × List Bool)) :
    entries.mapM (fun entry => historyPatterns entry.2) =
      if entries.all fun entry => entry.2.length - 15 < 2 ^ 32
      then .ok (entries.map fun entry => countPatterns entry.2)
      else .error (.endless "history patterns") := by
  induction entries with
  | nil => rfl
  | cons entry rest ih =>
    rw [List.mapM_cons, ih]
    simp only [historyPatterns, List.all_cons, List.map_cons]
    by_cases fits : entry.2.length - 15 < 4294967296 <;>
      cases rest.all fun entry => entry.2.length - 15 < 4294967296 <;>
      simp [fits, bind, Except.bind, pure, Except.pure]

theorem guarded_sub_comm {G : Type} [AddCommGroup G] {p q : Prop} [Decidable p] [Decidable q] (s a b : G) :
    (if q then (if p then s - a else s) - b else if p then s - a else s) =
      if p then (if q then s - b else s) - a else if q then s - b else s := by
  split_ifs <;> first | rfl | exact sub_right_comm _ _ _

theorem addPattern_right_comm (sums : BranchEntropy R) (x y : String × Nat) :
    addPattern log2 (addPattern log2 sums x) y = addPattern log2 (addPattern log2 sums y) x := by
  simp only [addPattern, BranchEntropy.mk.injEq]
  refine ⟨guarded_sub_comm _ _ _, guarded_sub_comm _ _ _, add_right_comm _ _ _, ?_⟩
  rw [toUnsigned, toUnsigned, toUnsigned, toUnsigned, Nat.mod_add_mod, Nat.mod_add_mod, Nat.add_right_comm]

theorem branchEntropy_perm {histories histories' : List (UnorderedMap String Nat)}
    (reordered : histories.Perm histories') :
    branchEntropy log2 histories = branchEntropy log2 histories' := by
  unfold branchEntropy
  rw [reordered.foldl_eq' fun x _ y _ sums => by
    rw [← List.foldl_append, ← List.foldl_append]
    exact List.perm_append_comm.foldl_eq' (fun _ _ _ _ _ => addPattern_right_comm log2 _ _ _) _]

theorem kernelEnd_eq (agg : Aggregate) : kernelEnd log2 sqrt agg = (do
    let report ← kernelEndReport log2 sqrt agg
    let entropy ← (branchHistories agg).map (branchEntropy log2)
    pure (report, entropy)) := by
  unfold kernelEnd
  cases kernelEndReport log2 sqrt agg <;> cases branchHistories agg <;> rfl

theorem branchHistories_eq (agg : Aggregate) : branchHistories agg =
    if (agg.branchOps.entries.filter fun entry => 16 ≤ entry.2.length).all fun entry => entry.2.length - 15 < 2 ^ 32
    then .ok ((agg.branchOps.entries.filter fun entry => 16 ≤ entry.2.length).map fun entry => countPatterns entry.2)
    else .error (.endless "history patterns") :=
  mapM_historyPatterns _

theorem all_long_perm {a b : Aggregate} (lines : a.branchOps.entries.Perm b.branchOps.entries) :
    ((a.branchOps.entries.filter fun entry => 16 ≤ entry.2.length).all
      fun entry => entry.2.length - 15 < 2 ^ 32) =
      ((b.branchOps.entries.filter fun entry => 16 ≤ entry.2.length).all
        fun entry => entry.2.length - 15 < 2 ^ 32) :=
  Bool.eq_iff_iff.mpr (by simp only [List.all_eq_true, (lines.filter _).mem_iff])

theorem branchHistories_perm {a b : Aggregate} (lines : a.branchOps.entries.Perm b.branchOps.entries) :
    (branchHistories a).map Multiset.ofList = (branchHistories b).map Multiset.ofList := by
  rw [branchHistories_eq, branchHistories_eq, all_long_perm lines]
  split
  · exact congrArg Except.ok (Multiset.coe_eq_coe.mpr ((lines.filter _).map _))
  · rfl

theorem kernelEnd_congr {a b : Aggregate} (same : MergeEquiv a b)
    (lines : a.branchOps.entries.Perm b.branchOps.entries) : kernelEnd log2 sqrt a = kernelEnd log2 sqrt b := by
  rw [kernelEnd_eq, kernelEnd_eq, kernelEndReport_congr log2 sqrt same, branchHistories_eq, branchHistories_eq,
    all_long_perm lines]
  split
  · simp only [Except.map, branchEntropy_perm log2 ((lines.filter _).map _)]
  · rfl

theorem kernelEnd_entropy {agg : Aggregate} (histories : List (UnorderedMap String Nat))
    (reported : ∃ report, kernelEndReport log2 sqrt agg = .ok report)
    (found : branchHistories agg = .ok histories) :
    (kernelEnd log2 sqrt agg).map (·.2.averageEntropy) = .ok (branchEntropy log2 histories).averageEntropy := by
  obtain ⟨report, reported⟩ := reported
  simp only [kernelEnd, reported, found, bind, Except.bind, pure, Except.pure, Except.map]

end Entropy

end AiwcProof
