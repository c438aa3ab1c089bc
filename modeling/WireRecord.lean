import WireRecord.Session
import WireRecord.Proofs.Layout.ExactSums
import WireRecord.Proofs.Layout.Tiling
import WireRecord.Proofs.Packing.Buffer
import WireRecord.Proofs.Packing.ReadBack
import WireRecord.Proofs.Emission.Cut
import WireRecord.Proofs.Emission.Sequence
import WireRecord.Proofs.Go.SourceEvents
import WireRecord.Proofs.Text.Digits
import WireRecord.Proofs.Text.Lines
import WireRecord.Proofs.Go.SerializerText
import WireRecord.Proofs.Go.Sections
import WireRecord.Proofs.Json.StringLiteral
import WireRecord.Proofs.Json.Lexing
import WireRecord.Proofs.Json.Parsing
import WireRecord.Proofs.Json.Form
import WireRecord.Proofs.Description.RoundTrip
import WireRecord.Proofs.Description.Reload
import WireRecord.Proofs.Go.BinaryImport
import WireRecord.Proofs.Go.Padding
import WireRecord.Proofs.Json.Presentation
import WireRecord.Proofs.Description.Presentation
import WireRecord.Proofs.Json.Truncation.Documents
import WireRecord.Proofs.Json.Truncation.Reading
import WireRecord.Proofs.Description.Truncation
import WireRecord.Proofs.Layout.Composition
import WireRecord.Proofs.Layout.SideBySide
import WireRecord.Proofs.Go.DirectText
import WireRecord.Proofs.Go.ByteOrderInheritance
import WireRecord.Proofs.Go.DefinitionText
import WireRecord.Proofs.Go.SectionJoin
import WireRecord.Proofs.Go.Accounting
import WireRecord.Proofs.Json.Keys
import WireRecord.Proofs.Description.Keys
import WireRecord.Proofs.Description.Tags
import WireRecord.Proofs.Go.Reordering
import WireRecord.Proofs.Description.Building
import WireRecord.Proofs.Json.IntegerLiteral
import WireRecord.Proofs.Json.Context
import WireRecord.Proofs.Description.Counts
