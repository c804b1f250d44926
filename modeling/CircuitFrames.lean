import CircuitFrames.Numeral.Plain
import CircuitFrames.Numeral.Double
import CircuitFrames.Circuit.Builder
import CircuitFrames.Circuit.Flatten
import CircuitFrames.Text.Parser
import CircuitFrames.Text.Printer
import CircuitFrames.Json.Mechanism
import CircuitFrames.Diagram.Page
import CircuitFrames.Command.Directory
import CircuitFrames.Main
import CircuitFrames.Proofs.Circuit.Execution
import CircuitFrames.Proofs.Circuit.Shapes
import CircuitFrames.Proofs.Circuit.Products
import CircuitFrames.Proofs.Circuit.Shift
import CircuitFrames.Proofs.Diagram.History
import CircuitFrames.Proofs.Diagram.Step
import CircuitFrames.Proofs.Diagram.InTurn
import CircuitFrames.Proofs.Diagram.Books
import CircuitFrames.Proofs.Diagram.Counts
import CircuitFrames.Proofs.Diagram.Lookback
import CircuitFrames.Proofs.Diagram.Flattening
import CircuitFrames.Proofs.Diagram.Placement
import CircuitFrames.Proofs.Diagram.Unrolling
import CircuitFrames.Proofs.Numeral.Double
import CircuitFrames.Proofs.Numeral.Sum
import CircuitFrames.Proofs.Numeral.Nearest
import CircuitFrames.Proofs.Numeral.Shortest
import CircuitFrames.Proofs.Numeral.Plain
import CircuitFrames.Proofs.Text.Scanning
import CircuitFrames.Proofs.Text.Emitted
import CircuitFrames.Proofs.Text.Reading
import CircuitFrames.Proofs.Text.Soundness
import CircuitFrames.Proofs.Text.RoundTrip
import CircuitFrames.Proofs.Text.Acceptance
import CircuitFrames.Proofs.Diagram.Finishing
import CircuitFrames.Proofs.Diagram.Behind
import CircuitFrames.Proofs.Diagram.Repetition
import CircuitFrames.Proofs.Circuit.NormalForm
import CircuitFrames.Proofs.Circuit.Pairs
import CircuitFrames.Proofs.Diagram.Glyphs
import CircuitFrames.Proofs.Diagram.Drawing
import CircuitFrames.Proofs.Diagram.Footprint
import CircuitFrames.Proofs.Diagram.FrameCount
import CircuitFrames.Proofs.Diagram.Layers
import CircuitFrames.Proofs.Numeral.Order
import CircuitFrames.Proofs.Layout.Boxes
import CircuitFrames.Proofs.Diagram.ViewBox
import CircuitFrames.Proofs.Diagram.Views
import CircuitFrames.Proofs.Diagram.Highlight
import CircuitFrames.Proofs.Diagram.Annotations
import CircuitFrames.Proofs.Numeral.Word
import CircuitFrames.Proofs.Circuit.Building
import CircuitFrames.Proofs.Diagram.Acceptance
import CircuitFrames.Proofs.Diagram.Products
import CircuitFrames.Proofs.Diagram.Refusal
import CircuitFrames.Proofs.Diagram.Overlays
import CircuitFrames.Proofs.Text.Blame
import CircuitFrames.Proofs.Diagram.Snapshots
import CircuitFrames.Proofs.Diagram.DetectorLabels
import CircuitFrames.Proofs.Layout.Axes
import CircuitFrames.Proofs.Numeral.Rank
import CircuitFrames.Proofs.Diagram.Idle
import CircuitFrames.Proofs.Text.Spelling
import CircuitFrames.Proofs.Diagram.EditorLinks
import CircuitFrames.Proofs.Text.Apart
import CircuitFrames.Proofs.Text.Edits
import CircuitFrames.Proofs.Command.Sessions
import CircuitFrames.Proofs.Config.Precedence
import CircuitFrames.Proofs.Command.Files
import CircuitFrames.Proofs.Diagram.Consistency
import CircuitFrames.Proofs.Svg.Escape
import CircuitFrames.Proofs.Diagram.Page
