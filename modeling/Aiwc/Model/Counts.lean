import Aiwc.Model.Plugin

namespace AiwcModel

/-- `(unsigned)ceil(count * 0.9)`. For every count below 2^49 the `double` product is within
    a tenth of `9 * count / 10`, and exact when that is whole, so the ceiling is the exact
    one; the conversion keeps the low 32 bits, as on x86-64 where C++ leaves an out-of-range
    conversion undefined. -/
def significantCount (count : Nat) : Nat := toUnsigned ((9 * count + 9) / 10)

/-- The 90% coverage loops of `kernelEnd`: `taken` entries of the descending counts have
    been added into `sum`, and the loop reads the next one while `sum < threshold`. -/
def coverage (threshold : Nat) : List Nat → Nat → Nat → Except Fault Nat
  | [], taken, sum => if sum < threshold then .error (.outOfRange taken) else .ok taken
  | count :: rest, taken, sum =>
    if sum < threshold then coverage threshold rest (taken + 1) (sum + count) else .ok taken

/-- `std::partial_sort_copy` of a whole container with `key(left) > key(right)`. -/
def sortDescending {α : Type} (key : α → Nat) (entries : List α) : List α :=
  entries.insertionSort fun a b => key b ≤ key a

/-- `*std::min_element` and `*std::max_element`: dereferencing the end of an empty range. -/
def minElement (container : String) : List Nat → Except Fault Nat
  | [] => .error (.emptyRange container)
  | x :: xs => .ok (xs.foldl min x)

def maxElement (container : String) : List Nat → Except Fault Nat
  | [] => .error (.emptyRange container)
  | x :: xs => .ok (xs.foldl max x)

def element (values : List Nat) (index : Nat) : Except Fault Nat :=
  match values.get? index with
  | some value => .ok value
  | none => .error (.outOfRange index)

/-- The median of a sorted copy. The two middle values are added as `unsigned int`, and
    `size / 2 - 1` is `size_t` arithmetic. -/
def median (values : List Nat) : Except Fault Nat := do
  let sorted := values.insertionSort (· ≤ ·)
  let size := sorted.length
  if size % 2 = 0 then
    let lower ← element sorted ((size / 2 + 2 ^ 64 - 1) % 2 ^ 64)
    let upper ← element sorted (size / 2)
    pure (toUnsigned (lower + upper) / 2)
  else element sorted (size / 2)

/-- `local_address_count[nskip]`: accesses per address with `nskip` low bits dropped,
    each counter an `unsigned`. -/
def addressCount (nskip : Nat) (memoryOps : List Nat) : UnorderedMap Nat Nat :=
  memoryOps.foldl (fun counts address => counts.modify (address >>> nskip) fun c => toUnsigned (c + 1))
    .empty

/-- The history window at `i`; `i + j` is `unsigned` arithmetic. -/
def historyPattern (branch : List Bool) (i : Nat) : String :=
  String.mk ((List.range 16).map fun j => if branch.getD (toUnsigned (i + j)) false then '1' else '0')

/-- The histogram `H` of the history windows of one branch line, `H[current_pattern]++` an
    `unsigned` increment. -/
def countPatterns (branch : List Bool) : UnorderedMap String Nat :=
  (List.range (branch.length - 15)).foldl
    (fun patterns i => patterns.modify (historyPattern branch i) fun c => toUnsigned (c + 1)) .empty

/-- The window loop over one branch line: `unsigned i` against the `size_t` bound
    `size - (m - 1)`, so the loop ends only when that bound is below 2^32. -/
def historyPatterns (branch : List Bool) : Except Fault (UnorderedMap String Nat) :=
  if branch.length - 15 < 2 ^ 32 then .ok (countPatterns branch) else .error (.endless "history patterns")

/-- The window loop as the source writes it: `unsigned i` from `0` while `i < bound`, one
    window per iteration, for at most `fuel` iterations. The histogram and the number of
    iterations run, or `none` while the loop has not ended. -/
def windowLoop (branch : List Bool) (bound : Nat) :
    Nat → Nat → UnorderedMap String Nat → Option (UnorderedMap String Nat × Nat)
  | 0, i, patterns => if i < bound then none else some (patterns, 0)
  | fuel + 1, i, patterns =>
    if i < bound then
      (windowLoop branch bound fuel (toUnsigned (i + 1))
        (patterns.modify (historyPattern branch i) fun c => toUnsigned (c + 1))).map
        fun result => (result.1, result.2 + 1)
    else some (patterns, 0)

/-- The integer results of `kernelEnd`. Of the containers it sorts, only the counts of
    `sorted_count` are read again (by the global address entropy). -/
structure Counts where
  majorOperations : Nat
  totalInstructionCount : Nat
  itbMin : Nat
  itbMax : Nat
  itbMedian : Nat
  iptMin : Nat
  iptMax : Nat
  iptMedian : Nat
  simdMin : Nat
  simdMax : Nat
  simdSum : Nat
  simdNum : Nat
  sortedCount : List Nat
  memoryAccessCount : Nat
  totalMemoryFootprint : Nat
  uniqueMemoryAddresses : Nat
  totalMemoryAccess : Nat
  uniqueBranchInstructions : Nat
  branchOpCount : Nat
  uniqueBranchAddresses : Nat
  deriving DecidableEq

/-- `kernelEnd` up to the floating-point formulas and the branch history loop, in the order
    the source computes. -/
def kernelEndCounts (agg : Aggregate) : Except Fault Counts := do
  let sortedOps := sortDescending Prod.snd agg.computeOps.entries
  let totalInstructionCount := (sortedOps.map Prod.snd).sum
  let majorOperations ←
    coverage (significantCount totalInstructionCount) (sortedOps.map Prod.snd) 0 0
  let itbMin ← minElement "m_instructionsToBarrier" agg.instructionsToBarrier
  let itbMax ← maxElement "m_instructionsToBarrier" agg.instructionsToBarrier
  let itbMedian ← median agg.instructionsToBarrier
  let iptMin ← minElement "m_instructionsPerWorkitem" agg.instructionsPerWorkitem
  let iptMax ← maxElement "m_instructionsPerWorkitem" agg.instructionsPerWorkitem
  let iptMedian ← median agg.instructionsPerWorkitem
  let simdMin ← minElement "m_instructionWidth" (agg.instructionWidth.entries.map Prod.fst)
  let simdMax ← maxElement "m_instructionWidth" (agg.instructionWidth.entries.map Prod.fst)
  let simdSum := (agg.instructionWidth.entries.map fun entry => entry.2 * entry.1).sum
  let simdNum := agg.instructionWidth.valueSum
  let sortedCount := (sortDescending Prod.snd (addressCount 0 agg.memoryOps).entries).map Prod.snd
  let memoryAccessCount := sortedCount.sum
  let uniqueMemoryAddresses ← coverage (significantCount memoryAccessCount) sortedCount 0 0
  let sortedBranchOps := sortDescending (fun entry => entry.2.length) agg.branchOps.entries
  let branchOpCount := (sortedBranchOps.map fun entry => entry.2.length).sum
  let uniqueBranchAddresses ← coverage (significantCount branchOpCount)
    (sortedBranchOps.map fun entry => entry.2.length) 0 0
  pure {
    majorOperations, totalInstructionCount, itbMin, itbMax, itbMedian, iptMin, iptMax,
    iptMedian, simdMin, simdMax, simdSum, simdNum, sortedCount, memoryAccessCount,
    totalMemoryFootprint := (addressCount 0 agg.memoryOps).size, uniqueMemoryAddresses,
    totalMemoryAccess := toUnsigned (agg.globalMemoryAccess + agg.localMemoryAccess +
      agg.constantMemoryAccess),
    uniqueBranchInstructions := sortedBranchOps.length, branchOpCount, uniqueBranchAddresses }

/-- The history pattern histogram `H` of every branch line with at least 16 booleans, in the
    order `kernelEnd` visits `m_branchOps`. -/
def branchHistories (agg : Aggregate) : Except Fault (List (UnorderedMap String Nat)) :=
  (agg.branchOps.entries.filter fun entry => 16 ≤ entry.2.length).mapM fun entry =>
    historyPatterns entry.2

end AiwcModel
