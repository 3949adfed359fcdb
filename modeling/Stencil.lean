import Stencil.Main
import Stencil.Session
import Stencil.Proofs.Render.Concatenation
import Stencil.Proofs.Render.Splice
import Stencil.Proofs.Render.Spread
import Stencil.Proofs.Template.Decomposition
import Stencil.Proofs.Template.Tokens
import Stencil.Proofs.Template.BlockFault
import Stencil.Proofs.Render.Execution
import Stencil.Proofs.Datum.Printable
import Stencil.Proofs.Render.Steps
import Stencil.Proofs.Render.Termination
import Stencil.Proofs.Datum.Alike
import Stencil.Proofs.Render.Steering
import Stencil.Proofs.Render.Threshold
import Stencil.Proofs.Render.Dependence
import Stencil.Proofs.Site.Report
import Stencil.Proofs.Files.Walk
import Stencil.Proofs.Files.Write
import Stencil.Proofs.Json.Document
import Stencil.Proofs.Site.Context
import Stencil.Proofs.Site.Isolation
import Stencil.Proofs.Files.Contents
import Stencil.Proofs.Site.Effect
import Stencil.Proofs.Files.Apart
import Stencil.Proofs.Site.Order
import Stencil.Proofs.Datum.Exact
import Stencil.Proofs.Json.Scalar
import Stencil.Proofs.Json.Inverse
import Stencil.Proofs.Render.JsonTag
import Stencil.Proofs.Template.Respelling
import Stencil.Proofs.Render.Respelling
import Stencil.Proofs.Template.FaultPlace
import Stencil.Proofs.Render.Visits
import Stencil.Proofs.Render.SyntaxFault
import Stencil.Proofs.Render.Warnings
import Stencil.Proofs.Session.Memory
import Stencil.Proofs.Site.Unreadable
import Stencil.Proofs.CommandLine.ExitStatus
import Stencil.Proofs.Render.LoopNest
import Stencil.Proofs.Scope.Layers
import Stencil.Proofs.Render.LoopConcatenation
import Stencil.Proofs.Template.Spacing
import Stencil.Proofs.Markup.Rule
import Stencil.Proofs.Markup.Lines
import Stencil.Proofs.Markup.Literal
import Stencil.Proofs.Markup.ReadBack
import Stencil.Proofs.Markup.Nesting
import Stencil.Proofs.Markup.Blocks
import Stencil.Proofs.Site.PageValues
import Stencil.Proofs.Site.CanonicalUrl
import Stencil.Proofs.Position.Places
import Stencil.Proofs.Scope.Paths
import Stencil.Proofs.Datum.NormalForm
import Stencil.Proofs.Site.Sources
