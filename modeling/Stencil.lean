import Stencil.Embed.Expansion
import Stencil.Proofs.Abort
import Stencil.Proofs.Built.Compile
import Stencil.Proofs.Built.Views
import Stencil.Proofs.Bytes.Ending
import Stencil.Proofs.Claiming.Collision
import Stencil.Proofs.Claiming.Dynamic
import Stencil.Proofs.Directory.Nearest
import Stencil.Proofs.Double.Rounding
import Stencil.Proofs.Entity.References
import Stencil.Proofs.Events.Declarations
import Stencil.Proofs.Events.Handler
import Stencil.Proofs.Events.RawText
import Stencil.Proofs.Events.Stray
import Stencil.Proofs.Events.Tiling
import Stencil.Proofs.Fragment.Scan
import Stencil.Proofs.Fragment.Tiling
import Stencil.Proofs.FunctionName
import Stencil.Proofs.Grammar.Acceptance
import Stencil.Proofs.Live
import Stencil.Proofs.Marks.Forms
import Stencil.Proofs.Nesting.ElseLast
import Stencil.Proofs.Printed.Constants
import Stencil.Proofs.Printed.Dotted
import Stencil.Proofs.Printed.Integers
import Stencil.Proofs.Printed.Limit
import Stencil.Proofs.Printed.Parts
import Stencil.Proofs.Reference.Agreement
import Stencil.Proofs.Reference.Object
import Stencil.Proofs.Registry.FullNames
import Stencil.Proofs.Rendering.RoundTrip
import Stencil.Proofs.Scope.Frames
import Stencil.Proofs.Scope.Pending
import Stencil.Proofs.Token.Escaped
import Stencil.Proofs.Token.Spacing
import Stencil.Proofs.Validation
import Stencil.Proofs.Walk.Retelling
