import Dalvik.Draft.Finalize
import Dalvik.Member.Resolve
import Dalvik.Proofs.Refinement
import Dalvik.Proofs.Tiling
import Dalvik.Proofs.TypedBody
import Dalvik.TypePool
import Dalvik.Proofs.Handlers
import Dalvik.Proofs.Occurrence
import Dalvik.Proofs.Operands
import Dalvik.Proofs.Outcomes
import Dalvik.Proofs.Indexed
import Dalvik.Proofs.Declarations
import Dalvik.Proofs.Flags
import Dalvik.Proofs.Inventory
import Dalvik.Proofs.Equivariance
import Dalvik.Proofs.Rearrangement
import Dalvik.Proofs.Reordering
import Dalvik.Proofs.Interning
import Dalvik.Proofs.Grammar
import Dalvik.Proofs.Truncation
import Dalvik.Proofs.ArrayCells
import Dalvik.Proofs.Prototypes
import Dalvik.Proofs.Frozen
import Dalvik.Proofs.Deferral
import Dalvik.Proofs.Refusal
import Dalvik.Proofs.Isolation
import Dalvik.Proofs.Coherence
import Dalvik.Proofs.FormatRules
import Dalvik.Proofs.Repetition
import Dalvik.Proofs.Verdict
import Dalvik.Proofs.Residue
import Dalvik.Proofs.CallResults
import Dalvik.Proofs.Capacity
import Dalvik.Proofs.Entry
import Dalvik.Proofs.Renumbering
import Dalvik.Proofs.Spread
import Dalvik.Proofs.SpareLabels
import Dalvik.Proofs.Replacement
