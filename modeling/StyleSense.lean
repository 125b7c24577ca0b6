import StyleSense.Analyzer.Basic
import StyleSense.Analyzer.Json
import StyleSense.Analyzer.Load
import StyleSense.Color.Arithmetic
import StyleSense.Color.Basic
import StyleSense.Color.Conversion
import StyleSense.Color.Hex
import StyleSense.Color.Named
import StyleSense.Color.Presentation
import StyleSense.Command.Arguments
import StyleSense.Command.Reach
import StyleSense.Command.Run
import StyleSense.Completion
import StyleSense.Distinct
import StyleSense.Document
import StyleSense.Expression.Parser
import StyleSense.Fault
import StyleSense.Files.FileSystem
import StyleSense.Files.Glob
import StyleSense.Files.Path
import StyleSense.Files.Selection
import StyleSense.Json.Basic
import StyleSense.Json.Number
import StyleSense.Json.Printer
import StyleSense.Json.Reader
import StyleSense.Json.Record
import StyleSense.Line.Basic
import StyleSense.Line.Comment
import StyleSense.Line.Pattern
import StyleSense.Line.Piece
import StyleSense.Line.Scan
import StyleSense.Line.Tree
import StyleSense.Main
import StyleSense.Node.Basic
import StyleSense.Node.Json
import StyleSense.Node.Printer
import StyleSense.Node.Statements
import StyleSense.Number.Binary
import StyleSense.Number.Decimal
import StyleSense.Proofs.Color.Bounds
import StyleSense.Proofs.Color.Division
import StyleSense.Proofs.Color.Exact
import StyleSense.Proofs.Color.Hex
import StyleSense.Proofs.Color.Hue
import StyleSense.Proofs.Color.Inverse
import StyleSense.Proofs.Color.Named
import StyleSense.Proofs.Color.Presentation
import StyleSense.Proofs.Completion.Indent
import StyleSense.Proofs.Completion.Word
import StyleSense.Proofs.Expression.Balance
import StyleSense.Proofs.Expression.Brackets
import StyleSense.Proofs.Expression.Closing
import StyleSense.Proofs.Expression.Constructor
import StyleSense.Proofs.Expression.Derivation
import StyleSense.Proofs.Expression.Gap
import StyleSense.Proofs.Expression.Layout
import StyleSense.Proofs.Expression.Matching
import StyleSense.Proofs.Expression.Name
import StyleSense.Proofs.Expression.Numeric
import StyleSense.Proofs.Expression.Precedence
import StyleSense.Proofs.Expression.Printed
import StyleSense.Proofs.Expression.Printing
import StyleSense.Proofs.Expression.Rereading
import StyleSense.Proofs.Expression.Run
import StyleSense.Proofs.Expression.Step
import StyleSense.Proofs.Expression.Words
import StyleSense.Proofs.Files.Ancestor
import StyleSense.Proofs.Files.Itself
import StyleSense.Proofs.Files.Named
import StyleSense.Proofs.Files.Path
import StyleSense.Proofs.Files.Pattern
import StyleSense.Proofs.Files.Place
import StyleSense.Proofs.Files.Selection
import StyleSense.Proofs.Files.Stylesheet
import StyleSense.Proofs.Json.Record
import StyleSense.Proofs.Line.Body
import StyleSense.Proofs.Line.Break
import StyleSense.Proofs.Line.Comment
import StyleSense.Proofs.Line.Continuation
import StyleSense.Proofs.Line.Depth
import StyleSense.Proofs.Line.Ending
import StyleSense.Proofs.Line.Exchange
import StyleSense.Proofs.Line.Literal
import StyleSense.Proofs.Line.Nesting
import StyleSense.Proofs.Line.Order
import StyleSense.Proofs.Line.Parent
import StyleSense.Proofs.Line.Pattern
import StyleSense.Proofs.Line.Piece
import StyleSense.Proofs.Line.Place
import StyleSense.Proofs.Line.Quote
import StyleSense.Proofs.Line.Scan
import StyleSense.Proofs.Line.Tree
import StyleSense.Proofs.Line.Untouched
import StyleSense.Proofs.Line.Verbatim
import StyleSense.Proofs.Node.Json
import StyleSense.Proofs.Node.Matching
import StyleSense.Proofs.Node.Nested
import StyleSense.Proofs.Node.Printable
import StyleSense.Proofs.Node.Reading
import StyleSense.Proofs.Node.Sharing
import StyleSense.Proofs.Node.Statements
import StyleSense.Proofs.Node.Unplaced
import StyleSense.Proofs.Node.Words
import StyleSense.Proofs.Number.Parts
import StyleSense.Proofs.Number.Size
import StyleSense.Proofs.Selector.Header
import StyleSense.Proofs.Selector.Part
import StyleSense.Proofs.Selector.Segment
import StyleSense.Proofs.Selector.Source
import StyleSense.Proofs.Session.Cursor
import StyleSense.Proofs.Session.Documents
import StyleSense.Proofs.Session.Freshness
import StyleSense.Proofs.Session.Places
import StyleSense.Proofs.Settings.Nearest
import StyleSense.Proofs.Settings.Validity
import StyleSense.Proofs.Statement.Braces
import StyleSense.Proofs.Statement.Comment
import StyleSense.Proofs.Statement.Continuation
import StyleSense.Proofs.Statement.Coverage
import StyleSense.Proofs.Statement.Declaration
import StyleSense.Proofs.Statement.Exchange
import StyleSense.Proofs.Statement.Exposed
import StyleSense.Proofs.Statement.Fault
import StyleSense.Proofs.Statement.Inline
import StyleSense.Proofs.Statement.Literal
import StyleSense.Proofs.Statement.Matching
import StyleSense.Proofs.Statement.Outline
import StyleSense.Proofs.Statement.Relocation
import StyleSense.Proofs.Statement.Separation
import StyleSense.Proofs.Statement.Standing
import StyleSense.Proofs.Statement.Value
import StyleSense.Proofs.Statement.Verbatim
import StyleSense.Proofs.Statement.Words
import StyleSense.Proofs.Swatch.Background
import StyleSense.Proofs.Swatch.Collection
import StyleSense.Proofs.Swatch.Decoration
import StyleSense.Proofs.Swatch.Entries
import StyleSense.Proofs.Swatch.Group
import StyleSense.Proofs.Swatch.Order
import StyleSense.Proofs.Swatch.Place
import StyleSense.Proofs.Swatch.Range
import StyleSense.Proofs.Swatch.ReadBack
import StyleSense.Proofs.Swatch.Reported
import StyleSense.Proofs.Swatch.Search
import StyleSense.Proofs.Symbol.Completion
import StyleSense.Proofs.Symbol.Range
import StyleSense.Proofs.Text.Bytes
import StyleSense.Proofs.Text.Case
import StyleSense.Proofs.Text.Part
import StyleSense.Proofs.Text.Trimming
import StyleSense.Proofs.Token.Comment
import StyleSense.Proofs.Token.Coverage
import StyleSense.Proofs.Token.Cut
import StyleSense.Proofs.Token.Following
import StyleSense.Proofs.Token.Literal
import StyleSense.Proofs.Token.Numeral
import StyleSense.Proofs.Token.Place
import StyleSense.Proofs.Token.Separator
import StyleSense.Proofs.Token.Spelling
import StyleSense.Proofs.Token.Stretch
import StyleSense.Proofs.Token.Written
import StyleSense.Proofs.Watch.Tracker
import StyleSense.Schema.Basic
import StyleSense.Schema.Bundled
import StyleSense.Schema.Json
import StyleSense.Session.Basic
import StyleSense.Session.Json
import StyleSense.Session.Scheduler
import StyleSense.Session.Wire
import StyleSense.Settings.Basic
import StyleSense.Settings.Discovery
import StyleSense.Settings.Json
import StyleSense.Sheet
import StyleSense.Statement.Basic
import StyleSense.Statement.Selector
import StyleSense.Swatch.Colors
import StyleSense.Swatch.Decoration
import StyleSense.Swatch.Occurrence
import StyleSense.Symbol.Basic
import StyleSense.Symbol.Outline
import StyleSense.Text.Blank
import StyleSense.Text.Case
import StyleSense.Text.CodeRange
import StyleSense.Text.Letter
import StyleSense.Text.Offset
import StyleSense.Text.Units
import StyleSense.Token.Basic
import StyleSense.Token.Lexer
import StyleSense.Token.Operator
import StyleSense.Toml.Reader
import StyleSense.Toml.Table
import StyleSense.Watch.Report
import StyleSense.Watch.Round
import StyleSense.Watch.Tracker
