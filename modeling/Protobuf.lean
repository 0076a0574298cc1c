import Protobuf.Text.Utf8
import Protobuf.Indexed
import Protobuf.Wire.Reader
import Protobuf.Wire.Cursor
import Protobuf.Wire.Writer
import Protobuf.Wire.Zigzag
import Protobuf.FieldMask.Naming
import Protobuf.FieldMask.Normal
import Protobuf.FieldMask.Path
import Protobuf.Text.Digits
import Protobuf.Time.Calendar
import Protobuf.Time.Duration
import Protobuf.Time.Timestamp
import Protobuf.Number.Decimal
import Protobuf.Message.Basic
import Protobuf.Wire.Payload
import Protobuf.Message.Equal
import Protobuf.Message.Merge
import Protobuf.Message.Write
import Protobuf.Json.Error
import Protobuf.Json.Number
import Protobuf.Text.Base64
import Protobuf.Json.Scanner
import Protobuf.Json.IndexedScanner
import Protobuf.Json.Reader
import Protobuf.Json.Cursor
import Protobuf.Json.Writer
import Protobuf.Json.Decode
import Protobuf.Declaration.Attribute
import Protobuf.Declaration.Field
import Protobuf.Declaration.PathGrammar
import Protobuf.WellKnown.Any
import Protobuf.WellKnown.Types
import Protobuf.WellKnown.Tree
import Protobuf.Proofs.Wire.Locality
import Protobuf.Proofs.Wire.Varint
import Protobuf.Proofs.Message.Concatenation
import Protobuf.Proofs.Message.Encoding
import Protobuf.Proofs.Wire.Payload
import Protobuf.Proofs.Schema.Lawful
import Protobuf.Proofs.Message.Combination
import Protobuf.Proofs.Message.Records
import Protobuf.Proofs.Message.Absorption
import Protobuf.Proofs.Message.RoundTrip
import Protobuf.Proofs.Indexed
import Protobuf.Proofs.Wire.Extent
import Protobuf.Proofs.Wire.Cursor
import Protobuf.Proofs.Message.Dispatch
import Protobuf.Proofs.Message.Soundness
import Protobuf.Proofs.Message.Preservation
import Protobuf.Proofs.Message.Refusal
import Protobuf.Proofs.Message.Forwarding
import Protobuf.Proofs.Message.Fidelity
import Protobuf.Proofs.Message.Loops
import Protobuf.Proofs.Message.Turns
import Protobuf.Proofs.Message.Safety
import Protobuf.Proofs.Message.NestingLimit
import Protobuf.Proofs.Message.Exchange
import Protobuf.Proofs.Json.Objects
import Protobuf.Proofs.Time.Calendar
import Protobuf.Proofs.Time.ClockText
import Protobuf.Proofs.Time.SpanText
import Protobuf.Proofs.FieldMask.Naming
import Protobuf.Proofs.FieldMask.PathSet
import Protobuf.Proofs.FieldMask.SetOperations
import Protobuf.Proofs.Json.Dynamic
import Protobuf.Proofs.Json.DynamicDocuments
import Protobuf.Proofs.Json.Emission
import Protobuf.Proofs.Json.Skipping
import Protobuf.Proofs.Json.Sessions
import Protobuf.Proofs.Json.IndexedScanner
import Protobuf.Proofs.Json.Positions
import Protobuf.Proofs.Json.Progress
import Protobuf.Proofs.Json.CursorSafety
import Protobuf.Proofs.Json.Acceptance
import Protobuf.Proofs.Json.Likeness
import Protobuf.Proofs.Json.Capture
import Protobuf.Proofs.Json.Agreement
import Protobuf.Proofs.Json.IntegerText
import Protobuf.Proofs.Json.AnyMerging
import Protobuf.Proofs.Json.Reproduction
import Protobuf.Proofs.Json.MaskText
import Protobuf.Proofs.Json.LiteralBytes
import Protobuf.Proofs.Json.DepthLimit
import Protobuf.Proofs.Json.Typing
import Protobuf.Proofs.Message.Overlay
import Protobuf.Proofs.Json.Layering
import Protobuf.Proofs.Json.Quoting
import Protobuf.Proofs.Wire.Base128
import Protobuf.Proofs.Wire.Grammar
import Protobuf.Proofs.Wire.Backwards
import Protobuf.Proofs.Wire.Agreement
import Protobuf.Proofs.Time.Normalization
import Protobuf.Proofs.Time.Moments
import Protobuf.Proofs.Declaration.Naming
import Protobuf.Proofs.Message.PackedRuns
import Protobuf.Proofs.Message.MapStorage
import Protobuf.Proofs.Message.Congruence
import Protobuf.Proofs.Declaration.Rearranging
import Protobuf.Proofs.Json.NumberTokens
import Protobuf.Proofs.Json.Scientific
