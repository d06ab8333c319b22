import Warden.Main
import Warden.Proofs.ArrayLengths
import Warden.Proofs.Comparison
import Warden.Proofs.Compatibility
import Warden.Proofs.Configuration
import Warden.Proofs.Containment
import Warden.Proofs.ControlFlow.Jumps
import Warden.Proofs.ControlFlow.MissingReturn
import Warden.Proofs.EnumMembers
import Warden.Proofs.JsonLines
import Warden.Proofs.Memory.Attribution
import Warden.Proofs.Memory.Chains
import Warden.Proofs.Memory.Deferral
import Warden.Proofs.Memory.Interference
import Warden.Proofs.Memory.Routing
import Warden.Proofs.Numbering
import Warden.Proofs.Ranges
import Warden.Proofs.Resolution.Origins
import Warden.Proofs.RoundTrip
import Warden.Proofs.SourceLines
import Warden.Proofs.StructHistory
import Warden.Proofs.StructLiterals
import Warden.Proofs.Tree
import Warden.Proofs.TypeTable
import Warden.Syntax.Identity
