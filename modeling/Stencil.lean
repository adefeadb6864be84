import Stencil.Engine.Configured
import Stencil.Engine.Resolve
import Stencil.Proofs.Balanced
import Stencil.Proofs.Compiled
import Stencil.Proofs.Runs
import Stencil.Script.Run
import Stencil.Proofs.Strings
import Stencil.Proofs.Verbatim
import Stencil.Proofs.Openers
import Stencil.Proofs.Lawful
import Stencil.Proofs.Sandbox
import Stencil.Proofs.Versions
import Stencil.Proofs.Passages
import Stencil.Proofs.Markers
import Stencil.Proofs.Mirrored
import Stencil.Proofs.Turned
import Stencil.Proofs.Includes
import Stencil.Proofs.Flags
import Stencil.Proofs.Absorbed
import Stencil.Proofs.Longest
import Stencil.Proofs.Trees
import Stencil.Proofs.Alike
import Stencil.Proofs.Unforged
import Stencil.Proofs.Braces
import Stencil.Proofs.Remembered
import Stencil.Proofs.Evicted
import Stencil.Proofs.Owners
import Stencil.Proofs.Chains
import Stencil.Proofs.Located
import Stencil.Proofs.Commented
import Stencil.Proofs.Recorded
import Stencil.Proofs.Stepped
import Stencil.Proofs.Declared
import Stencil.Proofs.Entries
import Stencil.Proofs.Rounds
import Stencil.Proofs.Numbered
import Stencil.Proofs.Respaced
import Stencil.Proofs.Unbounded
import Stencil.Proofs.Indexed
