import Retrace.Main
import Retrace.Proofs.Except
import Retrace.Proofs.Selector.Name
import Retrace.Proofs.Selector.Spelling
import Retrace.Proofs.Page.Markup
import Retrace.Proofs.Locator.Description
import Retrace.Proofs.Locator.Trail
import Retrace.Proofs.Locator.Depth
import Retrace.Proofs.Locator.Soundness
import Retrace.Proofs.Action.Bounds
import Retrace.Proofs.Recording.Run
import Retrace.Proofs.Plan.Outline
import Retrace.Proofs.Recording.Brackets
import Retrace.Proofs.Plan.Conservation
import Retrace.Proofs.Path.Relative
import Retrace.Proofs.Recording.Containment
import Retrace.Proofs.Locator.Container
import Retrace.Proofs.Script.Lines
import Retrace.Proofs.Script.Statements
import Retrace.Proofs.Script.Compile
import Retrace.Proofs.Decimal.Double
import Retrace.Proofs.Decimal.Nearest
import Retrace.Proofs.Decimal.Read
import Retrace.Proofs.Decimal.Digits
import Retrace.Proofs.Decimal.Shortest
import Retrace.Proofs.Json.Members
import Retrace.Proofs.Json.Number
import Retrace.Proofs.Json.Quotation
import Retrace.Proofs.Json.RoundTrip
import Retrace.Proofs.Action.Order
import Retrace.Proofs.Action.RoundTrip
import Retrace.Proofs.Recording.Keeping
import Retrace.Proofs.Locator.Nonempty
import Retrace.Proofs.Recording.Tracking
import Retrace.Proofs.Recording.Convergence
import Retrace.Proofs.Plan.InPlace
import Retrace.Proofs.Script.Reading
import Retrace.Proofs.Script.Layout
import Retrace.Proofs.Script.Redaction
import Retrace.Proofs.Script.Summary
import Retrace.Proofs.CommandLine.Load
import Retrace.Proofs.Path.Compounds
import Retrace.Proofs.Path.Row
import Retrace.Proofs.Locator.Steps
import Retrace.Proofs.Locator.Row
import Retrace.Proofs.Decimal.Overflow
import Retrace.Proofs.Decimal.Whole
import Retrace.Proofs.Json.Equality
import Retrace.Proofs.Recording.Growth
import Retrace.Proofs.Recording.Consistency
import Retrace.Proofs.Recording.Edit
import Retrace.Proofs.Recording.Address
import Retrace.Proofs.Recording.Core
import Retrace.Proofs.Recording.Overlay
import Retrace.Proofs.Recording.Interchange
import Retrace.Proofs.Recording.Mirror
import Retrace.Proofs.Plan.Composition
import Retrace.Proofs.Plan.RowOrder
import Retrace.Proofs.Action.Edits
import Retrace.Proofs.Recording.Coalescing
import Retrace.Proofs.Path.Spaced
import Retrace.Proofs.Locator.Joints
import Retrace.Proofs.Action.Absorption
import Retrace.Proofs.Action.Timeline
import Retrace.Proofs.Locator.Lookup
import Retrace.Proofs.Recording.Failure
import Retrace.Proofs.Recording.Seeking
import Retrace.Proofs.Recording.Reception
import Retrace.Proofs.Action.Records
import Retrace.Proofs.Plan.Texts
import Retrace.Proofs.Script.Literal
import Retrace.Proofs.Script.Quotes
import Retrace.Proofs.Script.Controls
import Retrace.Proofs.Recording.Picking
import Retrace.Proofs.Path.Separators
import Retrace.Proofs.Path.Legible
import Retrace.Proofs.Text.Cutting
import Retrace.Proofs.Script.Source
import Retrace.Proofs.Settings.Environment
import Retrace.Proofs.Script.SelfContained
import Retrace.Proofs.Script.Names
import Retrace.Proofs.Script.Uses
