import Aiwc.Proof.WorkItems
import Aiwc.Model.Metrics

namespace AiwcProof

open AiwcModel UnorderedMap

/-- What two orders of the same merges agree on: every count map at every key, the lists and
    each branch line's booleans up to order, and the scalar counters. -/
structure MergeEquiv (a b : Aggregate) : Prop where
  computeOps : ∀ k, a.computeOps.find? k = b.computeOps.find? k
  instructionWidth : ∀ k, a.instructionWidth.find? k = b.instructionWidth.find? k
  loadInstructionLabels : ∀ k, a.loadInstructionLabels.find? k = b.loadInstructionLabels.find? k
  storeInstructionLabels : ∀ k, a.storeInstructionLabels.find? k = b.storeInstructionLabels.find? k
  branchOps : ∀ line, (a.branchOps.find? line).isSome = (b.branchOps.find? line).isSome ∧
    ((a.branchOps.find? line).getD []).Perm ((b.branchOps.find? line).getD [])
  memoryOps : a.memoryOps.Perm b.memoryOps
  instructionsToBarrier : a.instructionsToBarrier.Perm b.instructionsToBarrier
  instructionsPerWorkitem : a.instructionsPerWorkitem.Perm b.instructionsPerWorkitem
  instructionsBetweenLoadOrStore :
    a.instructionsBetweenLoadOrStore.Perm b.instructionsBetweenLoadOrStore
  threadsInvoked : a.threadsInvoked = b.threadsInvoked
  barriersHit : a.barriersHit = b.barriersHit
  globalMemoryAccess : a.globalMemoryAccess = b.globalMemoryAccess
  localMemoryAccess : a.localMemoryAccess = b.localMemoryAccess
  constantMemoryAccess : a.constantMemoryAccess = b.constantMemoryAccess

namespace MergeEquiv

theorem refl (a : Aggregate) : MergeEquiv a a :=
  ⟨fun _ => rfl, fun _ => rfl, fun _ => rfl, fun _ => rfl, fun _ => ⟨rfl, .refl _⟩, .refl _, .refl _,
    .refl _, .refl _, rfl, rfl, rfl, rfl, rfl⟩

theorem trans {a b c : Aggregate} (ab : MergeEquiv a b) (bc : MergeEquiv b c) : MergeEquiv a c :=
  ⟨fun k => (ab.computeOps k).trans (bc.computeOps k),
    fun k => (ab.instructionWidth k).trans (bc.instructionWidth k),
    fun k => (ab.loadInstructionLabels k).trans (bc.loadInstructionLabels k),
    fun k => (ab.storeInstructionLabels k).trans (bc.storeInstructionLabels k),
    fun k => ⟨(ab.branchOps k).1.trans (bc.branchOps k).1, (ab.branchOps k).2.trans (bc.branchOps k).2⟩,
    ab.memoryOps.trans bc.memoryOps, ab.instructionsToBarrier.trans bc.instructionsToBarrier,
    ab.instructionsPerWorkitem.trans bc.instructionsPerWorkitem,
    ab.instructionsBetweenLoadOrStore.trans bc.instructionsBetweenLoadOrStore,
    ab.threadsInvoked.trans bc.threadsInvoked, ab.barriersHit.trans bc.barriersHit,
    ab.globalMemoryAccess.trans bc.globalMemoryAccess, ab.localMemoryAccess.trans bc.localMemoryAccess,
    ab.constantMemoryAccess.trans bc.constantMemoryAccess⟩

theorem symm {a b : Aggregate} (ab : MergeEquiv a b) : MergeEquiv b a :=
  ⟨fun k => (ab.computeOps k).symm, fun k => (ab.instructionWidth k).symm,
    fun k => (ab.loadInstructionLabels k).symm, fun k => (ab.storeInstructionLabels k).symm,
    fun k => ⟨(ab.branchOps k).1.symm, (ab.branchOps k).2.symm⟩, ab.memoryOps.symm,
    ab.instructionsToBarrier.symm, ab.instructionsPerWorkitem.symm, ab.instructionsBetweenLoadOrStore.symm,
    ab.threadsInvoked.symm, ab.barriersHit.symm, ab.globalMemoryAccess.symm, ab.localMemoryAccess.symm,
    ab.constantMemoryAccess.symm⟩

end MergeEquiv

section Maps

variable {κ β : Type} [DecidableEq κ]

theorem merge_add_right_comm (x y z : Option Nat) :
    Option.merge (· + ·) (Option.merge (· + ·) x y) z =
      Option.merge (· + ·) (Option.merge (· + ·) x z) y := by
  cases x <;> cases y <;> cases z <;> simp only [Option.merge] <;> congr 1 <;> omega

theorem addEntries_congr {m₁ m₂ : UnorderedMap κ Nat} (same : ∀ k, m₁.find? k = m₂.find? k)
    (src : UnorderedMap κ Nat) (k : κ) :
    (m₁.addEntries src.entries).find? k = (m₂.addEntries src.entries).find? k := by
  rw [find?_addEntries _ _ src.nodupKeys, find?_addEntries _ _ src.nodupKeys, same]

theorem addEntries_swap (m s t : UnorderedMap κ Nat) (k : κ) :
    ((m.addEntries s.entries).addEntries t.entries).find? k =
      ((m.addEntries t.entries).addEntries s.entries).find? k := by
  simp only [find?_addEntries _ _ s.nodupKeys, find?_addEntries _ _ t.nodupKeys]
  exact merge_add_right_comm _ _ _

theorem append_right_perm (l s t : List β) : (l ++ s ++ t).Perm (l ++ t ++ s) := by
  simpa only [List.append_assoc] using List.perm_append_comm.append_left l

theorem appendEntries_congr {m₁ m₂ : UnorderedMap κ (List β)}
    (same : (m₁.find? k).isSome = (m₂.find? k).isSome ∧ ((m₁.find? k).getD []).Perm ((m₂.find? k).getD []))
    (src : UnorderedMap κ (List β)) :
    ((m₁.appendEntries src.entries).find? k).isSome = ((m₂.appendEntries src.entries).find? k).isSome ∧
      (((m₁.appendEntries src.entries).find? k).getD []).Perm
        (((m₂.appendEntries src.entries).find? k).getD []) := by
  simp only [isSome_find?_appendEntries, getD_find?_appendEntries, same.1]
  exact ⟨trivial, same.2.append_right _⟩

theorem appendEntries_swap (m s t : UnorderedMap κ (List β)) (k : κ) :
    (((m.appendEntries s.entries).appendEntries t.entries).find? k).isSome =
        (((m.appendEntries t.entries).appendEntries s.entries).find? k).isSome ∧
      ((((m.appendEntries s.entries).appendEntries t.entries).find? k).getD []).Perm
        ((((m.appendEntries t.entries).appendEntries s.entries).find? k).getD []) := by
  simp only [isSome_find?_appendEntries, getD_find?_appendEntries]
  exact ⟨by cases (m.find? k).isSome <;> simp [Bool.or_comm], append_right_perm _ _ _⟩

end Maps

theorem merge_congr {a b : Aggregate} (same : MergeEquiv a b) (state : WorkerState) :
    MergeEquiv (a.merge state) (b.merge state) :=
  ⟨addEntries_congr same.computeOps _, addEntries_congr same.instructionWidth _,
    addEntries_congr same.loadInstructionLabels _, addEntries_congr same.storeInstructionLabels _,
    fun _ => appendEntries_congr (same.branchOps _) _, same.memoryOps.append_right _,
    same.instructionsToBarrier.append_right _, same.instructionsPerWorkitem.append_right _,
    same.instructionsBetweenLoadOrStore.append_right _,
    congrArg (· + _) same.threadsInvoked, congrArg (· + _) same.barriersHit,
    congrArg (· + _) same.globalMemoryAccess, congrArg (· + _) same.localMemoryAccess,
    congrArg (· + _) same.constantMemoryAccess⟩

theorem merge_swap (a : Aggregate) (s t : WorkerState) :
    MergeEquiv ((a.merge s).merge t) ((a.merge t).merge s) :=
  ⟨addEntries_swap _ _ _, addEntries_swap _ _ _, addEntries_swap _ _ _, addEntries_swap _ _ _,
    appendEntries_swap _ _ _, append_right_perm _ _ _, append_right_perm _ _ _,
    append_right_perm _ _ _, append_right_perm _ _ _, Nat.add_right_comm _ _ _,
    Nat.add_right_comm _ _ _, Nat.add_right_comm _ _ _, Nat.add_right_comm _ _ _,
    Nat.add_right_comm _ _ _⟩

theorem foldl_merge_congr (states : List WorkerState) :
    ∀ {a b : Aggregate}, MergeEquiv a b →
      MergeEquiv (states.foldl Aggregate.merge a) (states.foldl Aggregate.merge b) := by
  induction states with
  | nil => exact id
  | cons s _ ih => exact fun same => ih (merge_congr same s)

theorem foldl_merge_equiv {states states' : List WorkerState} (reordered : states.Perm states') :
    ∀ {a b : Aggregate}, MergeEquiv a b →
      MergeEquiv (states.foldl Aggregate.merge a) (states'.foldl Aggregate.merge b) := by
  induction reordered with
  | nil => exact id
  | cons s _ ih => exact fun same => ih (merge_congr same s)
  | swap s t rest =>
    exact fun same => foldl_merge_congr rest ((merge_congr (merge_congr same t) s).trans (merge_swap _ t s))
  | trans _ _ ih₁ ih₂ => exact fun same => (ih₁ same).trans (ih₂ (.refl _))

section Reordered

variable {α κ ν μ : Type}

theorem min?_perm {l l' : List Nat} (reordered : l.Perm l') : l.min? = l'.min? := by
  cases found : l.min? with
  | none =>
    rw [List.min?_eq_none_iff] at found
    subst found
    rw [← reordered.nil_eq]
    rfl
  | some least =>
    obtain ⟨mem, le⟩ := List.min?_eq_some_iff'.mp found
    exact (List.min?_eq_some_iff'.mpr
      ⟨reordered.subset mem, fun b inside => le b (reordered.symm.subset inside)⟩).symm

theorem max?_perm {l l' : List Nat} (reordered : l.Perm l') : l.max? = l'.max? := by
  cases found : l.max? with
  | none =>
    rw [List.max?_eq_none_iff] at found
    subst found
    rw [← reordered.nil_eq]
    rfl
  | some greatest =>
    obtain ⟨mem, le⟩ := List.max?_eq_some_iff'.mp found
    exact (List.max?_eq_some_iff'.mpr
      ⟨reordered.subset mem, fun b inside => le b (reordered.symm.subset inside)⟩).symm

theorem minElement_eq (container : String) (values : List Nat) :
    minElement container values = match values.min? with
      | some least => .ok least
      | none => .error (.emptyRange container) := by
  cases values <;> rfl

theorem maxElement_eq (container : String) (values : List Nat) :
    maxElement container values = match values.max? with
      | some greatest => .ok greatest
      | none => .error (.emptyRange container) := by
  cases values <;> rfl

theorem minElement_perm {l l' : List Nat} (reordered : l.Perm l') (container : String) :
    minElement container l = minElement container l' := by
  rw [minElement_eq, minElement_eq, min?_perm reordered]

theorem maxElement_perm {l l' : List Nat} (reordered : l.Perm l') (container : String) :
    maxElement container l = maxElement container l' := by
  rw [maxElement_eq, maxElement_eq, max?_perm reordered]

theorem insertionSort_perm {l l' : List Nat} (reordered : l.Perm l') :
    l.insertionSort (· ≤ ·) = l'.insertionSort (· ≤ ·) :=
  List.eq_of_perm_of_sorted
    ((List.perm_insertionSort _ l).trans (reordered.trans (List.perm_insertionSort _ l').symm))
    (List.sorted_insertionSort _ l) (List.sorted_insertionSort _ l')

theorem median_perm {l l' : List Nat} (reordered : l.Perm l') : median l = median l' := by
  unfold median
  rw [insertionSort_perm reordered]

theorem sortDescending_keys (key : α → Nat) (entries : List α) :
    (sortDescending key entries).map key = (entries.map key).insertionSort fun a b => b ≤ a :=
  List.map_insertionSort _ _ key entries fun _ _ _ _ => Iff.rfl

theorem sortDescending_perm {key : α → Nat} {l l' : List α} (reordered : (l.map key).Perm (l'.map key)) :
    (sortDescending key l).map key = (sortDescending key l').map key := by
  rw [sortDescending_keys, sortDescending_keys]
  exact List.eq_of_perm_of_sorted
    ((List.perm_insertionSort _ _).trans (reordered.trans (List.perm_insertionSort _ _).symm))
    (List.sorted_insertionSort _ _) (List.sorted_insertionSort _ _)

theorem length_sortDescending (key : α → Nat) (entries : List α) :
    (sortDescending key entries).length = entries.length :=
  List.length_insertionSort _ _

theorem foldl_add_perm {R : Type} [AddCommMonoid R] {f : α → R} {l l' : List α} (reordered : l.Perm l')
    (init : R) : l.foldl (fun sum x => sum + f x) init = l'.foldl (fun sum x => sum + f x) init :=
  reordered.foldl_eq' (fun x _ y _ z => add_right_comm z (f x) (f y)) init

theorem addressEntropy_perm {R : Type} [LinearOrderedField R] (log2 : R → R) (total : Nat)
    {counts counts' : List R} (reordered : counts.Perm counts') :
    addressEntropy log2 total counts = addressEntropy log2 total counts' := by
  unfold addressEntropy
  exact reordered.foldl_eq'
    (fun x _ y _ z => sub_right_comm z (x / total * log2 (x / total)) (y / total * log2 (y / total))) 0

variable [DecidableEq κ]

theorem perm_map_of_find? {m₁ m₂ : UnorderedMap κ ν} (f : ν → μ)
    (same : ∀ k, (m₁.find? k).map f = (m₂.find? k).map f) :
    (m₁.entries.map fun entry => (entry.1, f entry.2)).Perm
      (m₂.entries.map fun entry => (entry.1, f entry.2)) := by
  have nodup : ∀ m : UnorderedMap κ ν, (m.entries.map fun entry => (entry.1, f entry.2)).Nodup :=
    fun m => List.Nodup.of_map Prod.fst (by simpa [List.map_map] using m.nodupKeys)
  apply (List.perm_ext_iff_of_nodup (nodup m₁) (nodup m₂)).mpr
  rintro ⟨k, w⟩
  have iff : ∀ m : UnorderedMap κ ν,
      (k, w) ∈ m.entries.map (fun entry => (entry.1, f entry.2)) ↔ (m.find? k).map f = some w := by
    intro m
    simp only [List.mem_map, Prod.mk.injEq, Option.map_eq_some']
    constructor
    · rintro ⟨⟨k', v⟩, member, rfl, rfl⟩
      exact ⟨v, mem_entries.mp member, rfl⟩
    · rintro ⟨v, found, rfl⟩
      exact ⟨(k, v), mem_entries.mpr found, rfl, rfl⟩
  rw [iff, iff, same]

theorem find?_countAddresses (nskip k : Nat) (ops : List Nat) (counts : UnorderedMap Nat Nat) :
    (ops.foldl (fun counts address => counts.modify (address >>> nskip) fun c => toUnsigned (c + 1))
      counts).find? k =
      if ops.countP (· >>> nskip = k) = 0 then counts.find? k
      else some (toUnsigned ((counts.find? k).getD 0 + ops.countP (· >>> nskip = k))) := by
  induction ops generalizing counts with
  | nil => simp
  | cons address rest ih =>
    rw [List.foldl_cons, ih]
    by_cases here : address >>> nskip = k
    · subst k
      by_cases none : rest.countP (· >>> nskip = address >>> nskip) = 0
      · simp [none]
      · simp only [List.countP_cons, none, find?_modify_self, if_false, decide_True, if_true,
          Option.getD_some, toUnsigned, Nat.default_eq_zero]
        simp only [Nat.add_eq_zero, one_ne_zero, and_false, if_false, Option.some.injEq]
        omega
    · simp [here, find?_modify_of_ne _ _ (Ne.symm here)]

theorem addressCount_perm {ops ops' : List Nat} (reordered : ops.Perm ops') (nskip k : Nat) :
    (addressCount nskip ops).find? k = (addressCount nskip ops').find? k := by
  rw [addressCount, addressCount, find?_countAddresses, find?_countAddresses, reordered.countP_eq]

end Reordered

section Report

variable {a b : Aggregate}

theorem map_length_of_perm {x y : Option (List Bool)}
    (same : x.isSome = y.isSome ∧ (x.getD []).Perm (y.getD [])) :
    x.map List.length = y.map List.length :=
  match x, y, same with
  | none, none, _ => rfl
  | some _, some _, same => congrArg some same.2.length_eq
  | none, some _, same => absurd same.1 (by simp)
  | some _, none, same => absurd same.1 (by simp)

theorem branchLengths_perm (same : MergeEquiv a b) :
    (a.branchOps.entries.map fun entry => entry.2.length).Perm
      (b.branchOps.entries.map fun entry => entry.2.length) := by
  have pairs := perm_map_of_find? List.length fun line => map_length_of_perm (same.branchOps line)
  simpa [List.map_map, Function.comp_def] using pairs.map Prod.snd

theorem kernelEndCounts_congr (same : MergeEquiv a b) : kernelEndCounts a = kernelEndCounts b := by
  have ops := perm_of_find? same.computeOps
  have widths := perm_of_find? same.instructionWidth
  have addresses := perm_of_find? (addressCount_perm same.memoryOps 0)
  have branches := branchLengths_perm same
  have simdNum : a.instructionWidth.valueSum = b.instructionWidth.valueSum := (widths.map Prod.snd).sum_eq
  have branchLines : a.branchOps.entries.length = b.branchOps.entries.length := by
    simpa using branches.length_eq
  simp only [kernelEndCounts, sortDescending_perm (ops.map Prod.snd),
    minElement_perm same.instructionsToBarrier, maxElement_perm same.instructionsToBarrier,
    median_perm same.instructionsToBarrier, minElement_perm same.instructionsPerWorkitem,
    maxElement_perm same.instructionsPerWorkitem, median_perm same.instructionsPerWorkitem,
    minElement_perm (widths.map Prod.fst), maxElement_perm (widths.map Prod.fst),
    (widths.map fun entry => entry.2 * entry.1).sum_eq, simdNum,
    sortDescending_perm (addresses.map Prod.snd), UnorderedMap.size, addresses.length_eq,
    sortDescending_perm branches, length_sortDescending, branchLines, same.globalMemoryAccess,
    same.localMemoryAccess, same.constantMemoryAccess]

theorem report_congr {R : Type} [LinearOrderedField R] (log2 sqrt : R → R) (same : MergeEquiv a b)
    (counts : Counts) : report log2 sqrt a counts = report log2 sqrt b counts := by
  have addresses : ∀ nskip, ((addressCount nskip a.memoryOps).entries.map fun entry => (entry.2 : R)).Perm
      ((addressCount nskip b.memoryOps).entries.map fun entry => (entry.2 : R)) :=
    fun nskip => (perm_of_find? (addressCount_perm same.memoryOps nskip)).map _
  simp only [report, same.threadsInvoked, same.barriersHit, same.globalMemoryAccess,
    same.localMemoryAccess, same.constantMemoryAccess, foldl_add_perm same.instructionsBetweenLoadOrStore,
    same.instructionsBetweenLoadOrStore.length_eq, foldl_add_perm (perm_of_find? same.loadInstructionLabels),
    foldl_add_perm (perm_of_find? same.storeInstructionLabels),
    foldl_add_perm (perm_of_find? same.instructionWidth), addressEntropy_perm log2 _ (addresses _)]

theorem kernelEndReport_congr {R : Type} [LinearOrderedField R] (log2 sqrt : R → R)
    (same : MergeEquiv a b) : kernelEndReport log2 sqrt a = kernelEndReport log2 sqrt b := by
  simp only [kernelEndReport, kernelEndCounts_congr same, report_congr log2 sqrt same]

end Report

/-- Merging the same work-groups in any two orders: the aggregates agree up to `MergeEquiv`,
    and everything `kernelEnd` reports from them apart from the branch entropies is the same. -/
theorem merge_order_invariant {R : Type} [LinearOrderedField R] (log2 sqrt : R → R) (agg : Aggregate)
    {states states' : List WorkerState} (reordered : states.Perm states') :
    MergeEquiv (states.foldl Aggregate.merge agg) (states'.foldl Aggregate.merge agg) ∧
      kernelEndReport log2 sqrt (states.foldl Aggregate.merge agg) =
        kernelEndReport log2 sqrt (states'.foldl Aggregate.merge agg) :=
  have same := foldl_merge_equiv reordered (.refl agg)
  ⟨same, kernelEndReport_congr log2 sqrt same⟩

theorem merge_order_invariant_two_groups :
    let first := { WorkerState.initial with
      memoryOps := [64, 68]
      threadsInvoked := 1
      computeOps := UnorderedMap.empty.modify "load" (· + 2)
      instructionWidth := UnorderedMap.empty.modify 1 (· + 2)
      instructionsBetweenBarriers := [2]
      instructionsPerWorkitem := [2] }
    let second := { WorkerState.initial with
      memoryOps := [128]
      threadsInvoked := 1
      computeOps := UnorderedMap.empty.modify "add" (· + 1)
      instructionWidth := UnorderedMap.empty.modify 4 (· + 1)
      instructionsBetweenBarriers := [1]
      instructionsPerWorkitem := [1] }
    [first, second].Perm [second, first] ∧
      (∃ report, kernelEndReport (id : ℚ → ℚ) id ([first, second].foldl Aggregate.merge .empty) = .ok report) ∧
      MergeEquiv ([first, second].foldl Aggregate.merge .empty) ([second, first].foldl Aggregate.merge .empty) ∧
      kernelEndReport (id : ℚ → ℚ) id ([first, second].foldl Aggregate.merge .empty) =
        kernelEndReport id id ([second, first].foldl Aggregate.merge .empty) := by
  intro first second
  refine ⟨.swap _ _ _, ?_, merge_order_invariant id id .empty (.swap _ _ _)⟩
  unfold second first
  exact ⟨_, rfl⟩

end AiwcProof
