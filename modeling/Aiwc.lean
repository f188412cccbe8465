import Aiwc.Model.Containers
import Aiwc.Model.Worker
import Aiwc.Model.Plugin
import Aiwc.Model.Counts
import Aiwc.Model.Metrics
import Aiwc.Model.System
import Aiwc.Model.Process
import Aiwc.Proof.Hooks
import Aiwc.Proof.Counting
import Aiwc.Proof.WorkItems
import Aiwc.Proof.MergeOrder
import Aiwc.Proof.BranchHistory
import Aiwc.Proof.Transfers
import Aiwc.Proof.Statistics
import Aiwc.Proof.Branches
import Aiwc.Proof.Windows
import Aiwc.Proof.EmptyContainers
import Aiwc.Proof.Interleaving
import Aiwc.Proof.Outcome
import Aiwc.Proof.Histogram
import Aiwc.Proof.LoadStore
import Aiwc.Proof.Simd
import Aiwc.Proof.Footprint
import Aiwc.Proof.Locality
import Aiwc.Proof.InstructionMix
import Aiwc.Proof.Console
