import SchemaDoc.Document.Reading
import SchemaDoc.Main
import SchemaDoc.Proofs.Document.Alike
import SchemaDoc.Proofs.Grammar.Parsing
import SchemaDoc.Proofs.Description.Described
import SchemaDoc.Proofs.Description.Agreement
import SchemaDoc.Proofs.Token.Scanning
import SchemaDoc.Proofs.Grammar.Retexting
import SchemaDoc.Proofs.Grammar.Trailing
import SchemaDoc.Proofs.Grammar.TrailingDeclaration
import SchemaDoc.Proofs.Grammar.Concatenation
import SchemaDoc.Proofs.Grammar.LeadingComment
import SchemaDoc.Proofs.Token.Lines
import SchemaDoc.Proofs.Schema.Resolution
import SchemaDoc.Proofs.Schema.Index
import SchemaDoc.Proofs.Document.Relations
import SchemaDoc.Proofs.Document.Keys
import SchemaDoc.Proofs.Document.Closure
import SchemaDoc.Proofs.Token.Skipping
import SchemaDoc.Proofs.StrictReading
import SchemaDoc.Proofs.TrailingComment
import SchemaDoc.Proofs.CorrectPrefix
import SchemaDoc.Proofs.Placement
import SchemaDoc.Proofs.Json.Quoted
import SchemaDoc.Proofs.Json.Rendering
import SchemaDoc.Proofs.Json.Shaped
import SchemaDoc.Proofs.Document.RoundTrip
import SchemaDoc.Proofs.Toml.Line
import SchemaDoc.Proofs.Config.RoundTrip
import SchemaDoc.Proofs.Grammar.Alignment
import SchemaDoc.Proofs.Grammar.AlignedReading
import SchemaDoc.Proofs.Layout
import SchemaDoc.Proofs.Token.Seam
import SchemaDoc.Proofs.Composition
import SchemaDoc.Proofs.Document.DeclarationOrder
import SchemaDoc.Proofs.Document.ReverseField
import SchemaDoc.Proofs.Document.UnresolvedRelations
import SchemaDoc.Proofs.Description.ReadBack
import SchemaDoc.Proofs.Path
import SchemaDoc.Proofs.FileSystem
import SchemaDoc.Proofs.Command.Agreement
import SchemaDoc.Proofs.Command.Effects
import SchemaDoc.Proofs.Positions
import SchemaDoc.Proofs.CleanedReading
import SchemaDoc.Proofs.Documentation
import SchemaDoc.Proofs.Verbatim
import SchemaDoc.Proofs.Numerals
import SchemaDoc.Proofs.SafeReading
import SchemaDoc.Proofs.IntegerDefaults
import SchemaDoc.Proofs.Words
import SchemaDoc.Proofs.FirstEnd
import SchemaDoc.Proofs.Document.Columns
import SchemaDoc.Proofs.Document.Constraints
import SchemaDoc.Proofs.Document.GeneratedNames
import SchemaDoc.Proofs.Document.InertAttributes
import SchemaDoc.Proofs.Description.UnknownMembers
import SchemaDoc.Proofs.Config.Expansion
import SchemaDoc.Proofs.Naming
