import LateBinding.Options.Document
import LateBinding.Scenario.Ensemble
import LateBinding.Proofs.Codec.Corruption
import LateBinding.Proofs.Codec.Readings
import LateBinding.Proofs.Codec.Units
import LateBinding.Proofs.Dispatch.Above
import LateBinding.Proofs.Dispatch.Forwarding
import LateBinding.Proofs.Dispatch.Removed
import LateBinding.Proofs.Execution.Aborts
import LateBinding.Proofs.Execution.Categories
import LateBinding.Proofs.Execution.Conformance
import LateBinding.Proofs.Execution.AlreadyBound
import LateBinding.Proofs.Execution.Metaclasses
import LateBinding.Proofs.Order.Independence
import LateBinding.Proofs.Scenario.AfterShutdown
import LateBinding.Proofs.Selectors.Roster
import LateBinding.Proofs.SparseIndex.Families
import LateBinding.Proofs.StringTable.Editing
import LateBinding.Proofs.Execution.LinkOrder
import LateBinding.Proofs.Tables.Affected
import LateBinding.Proofs.Execution.Rebuilding
import LateBinding.Proofs.Codec.Programs
import LateBinding.Proofs.Codec.Reserving
import LateBinding.Proofs.Dispatch.Queries
import LateBinding.Proofs.SparseIndex.Compact
import LateBinding.Proofs.Tables.Compact
import LateBinding.Proofs.Execution.TableMemory
