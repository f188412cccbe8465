import Mathlib
import Aiwc.Model.Counts

namespace AiwcModel

/-- What `kernelEnd` prints and writes to its log file, apart from the branch entropies. -/
structure Report (R : Type) where
  majorOperations : Nat
  totalInstructionCount : Nat
  freedomToReorder : R
  resourcePressure : R
  workitems : Nat
  granularity : R
  barriersHit : Nat
  itbMin : Nat
  itbMax : Nat
  itbMedian : Nat
  barriersPerInstruction : R
  iptMin : Nat
  iptMax : Nat
  iptMedian : Nat
  simdMin : Nat
  simdMax : Nat
  operandSum : Nat
  simdMean : R
  simdStdev : R
  instructionsPerOperand : R
  totalMemoryFootprint : Nat
  uniqueMemoryAddresses : Nat
  globalEntropy : R
  localEntropy : List R
  globalMemoryAccess : Nat
  localMemoryAccess : Nat
  constantMemoryAccess : Nat
  relativeLocalUsage : R
  relativeConstantUsage : R
  uniqueBranchInstructions : Nat
  uniqueBranchAddresses : Nat

/-- The branch entropy accumulators of `kernelEnd`, `N` included. -/
structure BranchEntropy (R : Type) where
  yokotaEntropy : R
  yokotaEntropyPerWorkload : R
  averageEntropy : R
  n : Nat

section Metrics

variable {R : Type} [LinearOrderedField R] (log2 sqrt : R → R)

/-- `entropy = entropy - prob * std::log2(prob)` over the counts, `prob = count / total`. -/
def addressEntropy (total : Nat) (counts : List R) : R :=
  counts.foldl (fun entropy count => entropy - count / total * log2 (count / total)) 0

/-- The floating-point part of `kernelEnd`, from the aggregate and its integer results, in
    exact arithmetic over `R` and in the source's order of operations; `std::log2` and
    `std::sqrt` are parameters, and a division by zero gives `0`. The global entropy reads the
    counts through `(int)`, the local ones do not. -/
def report (agg : Aggregate) (counts : Counts) : Report R :=
  let simdMean : R := counts.simdSum / counts.simdNum
  { majorOperations := counts.majorOperations
    totalInstructionCount := counts.totalInstructionCount
    freedomToReorder := agg.instructionsBetweenLoadOrStore.foldl (fun sum (n : Nat) => sum + (n : R)) 0 /
      agg.instructionsBetweenLoadOrStore.length
    resourcePressure := agg.loadInstructionLabels.entries.foldl (fun sum entry => sum + (entry.2 : R))
      (agg.storeInstructionLabels.entries.foldl (fun sum entry => sum + (entry.2 : R)) 0) /
      agg.threadsInvoked
    workitems := agg.threadsInvoked
    granularity := 1 / (agg.threadsInvoked : R)
    barriersHit := agg.barriersHit
    itbMin := counts.itbMin
    itbMax := counts.itbMax
    itbMedian := counts.itbMedian
    barriersPerInstruction :=
      ((agg.barriersHit + agg.threadsInvoked : Nat) : R) / counts.totalInstructionCount
    iptMin := counts.iptMin
    iptMax := counts.iptMax
    iptMedian := counts.iptMedian
    simdMin := counts.simdMin
    simdMax := counts.simdMax
    operandSum := counts.simdSum
    simdMean
    simdStdev := sqrt (agg.instructionWidth.entries.foldl
      (fun sum entry => sum + ((entry.1 : R) - simdMean) * ((entry.1 : R) - simdMean) * entry.2) 0 /
      counts.simdNum)
    instructionsPerOperand := (counts.totalInstructionCount : R) / counts.simdSum
    totalMemoryFootprint := counts.totalMemoryFootprint
    uniqueMemoryAddresses := counts.uniqueMemoryAddresses
    globalEntropy := addressEntropy log2 counts.memoryAccessCount
      (counts.sortedCount.map fun count => ((toInt count : Int) : R))
    localEntropy := (List.range 10).map fun i => addressEntropy log2 counts.memoryAccessCount
      ((addressCount (i + 1) agg.memoryOps).entries.map fun entry => (entry.2 : R))
    globalMemoryAccess := agg.globalMemoryAccess
    localMemoryAccess := agg.localMemoryAccess
    constantMemoryAccess := agg.constantMemoryAccess
    relativeLocalUsage := (agg.localMemoryAccess : R) / counts.totalMemoryAccess * 100
    relativeConstantUsage := (agg.constantMemoryAccess : R) / counts.totalMemoryAccess * 100
    uniqueBranchInstructions := counts.uniqueBranchInstructions
    uniqueBranchAddresses := counts.uniqueBranchAddresses }

/-- One entry of `H`: a pattern seen `h.2` times. -/
def addPattern (sums : BranchEntropy R) (h : String × Nat) : BranchEntropy R :=
  let taken := h.1.toList.count '1'
  let notTaken := h.1.toList.count '0'
  let probabilityOfTaken : R := taken / (notTaken + taken : Nat)
  let linearBranchEntropy := 2 * min probabilityOfTaken (1 - probabilityOfTaken)
  { yokotaEntropy := if probabilityOfTaken ≠ 0
      then sums.yokotaEntropy - h.2 * probabilityOfTaken * log2 probabilityOfTaken
      else sums.yokotaEntropy
    yokotaEntropyPerWorkload := if probabilityOfTaken ≠ 0
      then sums.yokotaEntropyPerWorkload - probabilityOfTaken * log2 probabilityOfTaken
      else sums.yokotaEntropyPerWorkload
    averageEntropy := sums.averageEntropy + h.2 * linearBranchEntropy
    n := toUnsigned (sums.n + h.2) }

/-- The entropies over every line's `H`, lines and patterns in iteration order; the average is
    divided by `N` at the end, where a `NaN` from `0 / 0` is replaced by `0`. In exact
    arithmetic the order does not matter; the code's `float` sums depend on it. -/
def branchEntropy (histories : List (UnorderedMap String Nat)) : BranchEntropy R :=
  let sums := histories.foldl (fun sums h => h.entries.foldl (addPattern log2) sums) ⟨0, 0, 0, 0⟩
  { sums with averageEntropy := sums.averageEntropy / sums.n }

def kernelEndReport (agg : Aggregate) : Except Fault (Report R) := do
  let counts ← kernelEndCounts agg
  pure (report log2 sqrt agg counts)

/-- `kernelEnd`: the report, then the branch history loop and its entropies. -/
def kernelEnd (agg : Aggregate) : Except Fault (Report R × BranchEntropy R) := do
  let report ← kernelEndReport log2 sqrt agg
  let histories ← branchHistories agg
  pure (report, branchEntropy log2 histories)

end Metrics

end AiwcModel
