import Mathlib
import Aiwc.Model.Metrics
import Aiwc.Model.System

namespace AiwcModel

/-- The flags of `std::cout` that its floating-point output reads and that `kernelEnd`
    changes: whether `std::fixed` is set, and the precision. -/
structure StreamFormat where
  fixed : Bool
  precision : Nat
  deriving DecidableEq, Repr

/-- `std::cout` as the program starts: no floatfield flag, precision 6. -/
def StreamFormat.initial : StreamFormat := ⟨false, 6⟩

/-- The floating-point values `kernelEnd` writes to `std::cout`, in the order it writes them. -/
inductive FloatMetric where
  | freedomToReorder
  | resourcePressure
  | granularity
  | itbMedian
  | barriersPerInstruction
  | simdMean
  | simdStdev
  | instructionsPerOperand
  | globalEntropy
  | localEntropy (nskip : Nat)
  | relativeLocalUsage
  | relativeConstantUsage
  | yokotaEntropy
  | yokotaEntropyPerWorkload
  | averageEntropy
  deriving DecidableEq, Repr

def FloatMetric.value {R : Type} [LinearOrderedField R] (report : Report R) (entropy : BranchEntropy R) :
    FloatMetric → R
  | .freedomToReorder => report.freedomToReorder
  | .resourcePressure => report.resourcePressure
  | .granularity => report.granularity
  | .itbMedian => report.itbMedian
  | .barriersPerInstruction => report.barriersPerInstruction
  | .simdMean => report.simdMean
  | .simdStdev => report.simdStdev
  | .instructionsPerOperand => report.instructionsPerOperand
  | .globalEntropy => report.globalEntropy
  | .localEntropy nskip => report.localEntropy.getD (nskip - 1) 0
  | .relativeLocalUsage => report.relativeLocalUsage
  | .relativeConstantUsage => report.relativeConstantUsage
  | .yokotaEntropy => entropy.yokotaEntropy
  | .yokotaEntropyPerWorkload => entropy.yokotaEntropyPerWorkload
  | .averageEntropy => entropy.averageEntropy

/-- What `kernelEnd` sends to `std::cout` that sets the flags or that they format. The text
    and the integers it writes are left out: the flags do not act on them. -/
inductive StreamOp where
  | setprecision (n : Nat)
  | fixed
  | float (metric : FloatMetric)
  deriving DecidableEq, Repr

/-- The stream operations of `kernelEnd` in source order: `setprecision(2)` before the freedom
    to reorder and the resource pressure, `fixed` and `setprecision(4)` at each row of the local
    entropy table, `setprecision(2)` before the two memory usages. -/
def kernelEndStream : List StreamOp :=
  [.setprecision 2, .float .freedomToReorder, .setprecision 2, .float .resourcePressure, .float .granularity,
    .float .itbMedian, .float .barriersPerInstruction, .float .simdMean, .float .simdStdev,
    .float .instructionsPerOperand, .float .globalEntropy] ++
  ((List.range 10).flatMap fun i => [.fixed, .setprecision 4, .float (.localEntropy (i + 1))]) ++
  [.setprecision 2, .float .relativeLocalUsage, .setprecision 2, .float .relativeConstantUsage,
    .float .yokotaEntropy, .float .yokotaEntropyPerWorkload, .float .averageEntropy]

namespace StreamFormat

/-- The flags after the operations: a manipulator sticks until the next one changes it. -/
def apply : StreamFormat → List StreamOp → StreamFormat
  | format, [] => format
  | format, .setprecision n :: ops => apply { format with precision := n } ops
  | format, .fixed :: ops => apply { format with fixed := true } ops
  | format, .float _ :: ops => apply format ops

/-- Each floating-point write with the flags it is formatted with. -/
def writes : StreamFormat → List StreamOp → List (FloatMetric × StreamFormat)
  | _, [] => []
  | format, .setprecision n :: ops => writes { format with precision := n } ops
  | format, .fixed :: ops => writes { format with fixed := true } ops
  | format, .float metric :: ops => (metric, format) :: writes format ops

end StreamFormat

/-- One floating-point value written to `std::cout`, with the flags it is formatted with. -/
structure Written (R : Type) where
  metric : FloatMetric
  value : R
  format : StreamFormat

/-- The host process: the plugin and the worker threads, the flags of `std::cout`, and the
    floating-point values written to it so far. -/
structure Process (R : Type) where
  system : System
  cout : StreamFormat
  output : List (Written R)

namespace Process

variable {R : Type} [LinearOrderedField R] (log2 sqrt : R → R) (spaces : AddressSpaces)

def initial : Process R := ⟨.initial, .initial, []⟩

/-- A hook. `kernelEnd` writes its report with the flags `std::cout` has, and leaves them as
    its manipulators set them; the other hooks write no floating-point value. -/
def step (process : Process R) : Event → Except Fault (Process R)
  | .kernelEnd name => do
    let (report, entropy) ← kernelEnd log2 sqrt process.system.plugin.aggregate
    let system ← process.system.step spaces (.kernelEnd name)
    pure ⟨system, process.cout.apply kernelEndStream, process.output ++
      (process.cout.writes kernelEndStream).map fun write => ⟨write.1, write.1.value report entropy, write.2⟩⟩
  | event => do
    let system ← process.system.step spaces event
    pure { process with system }

def run (process : Process R) : List Event → Except Fault (Process R)
  | [] => .ok process
  | event :: events => do
    let next ← process.step log2 sqrt spaces event
    next.run events

end Process

end AiwcModel
