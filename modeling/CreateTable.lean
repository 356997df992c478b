import CreateTable.Column
import CreateTable.DataType
import CreateTable.Encoding
import CreateTable.Grammar.Matcher
import CreateTable.Grammar.Rule
import CreateTable.Identifier
import CreateTable.Key
import CreateTable.Proofs.Column.Attribute
import CreateTable.Proofs.Column.CutOff
import CreateTable.Proofs.Column.Grammar
import CreateTable.Proofs.Column.Parameters
import CreateTable.Proofs.Column.Value
import CreateTable.Proofs.Encoding.Classification
import CreateTable.Proofs.Encoding.Detection
import CreateTable.Proofs.Encoding.Utf16
import CreateTable.Proofs.Grammar.Bare
import CreateTable.Proofs.Grammar.Group
import CreateTable.Proofs.Grammar.Index
import CreateTable.Proofs.Grammar.Lookahead
import CreateTable.Proofs.Grammar.Phrase
import CreateTable.Proofs.Grammar.Pieces
import CreateTable.Proofs.Grammar.Progress
import CreateTable.Proofs.Grammar.RuleSimulation
import CreateTable.Proofs.Grammar.Segment
import CreateTable.Proofs.Grammar.Significant
import CreateTable.Proofs.Grammar.Simulation
import CreateTable.Proofs.Grammar.Stop
import CreateTable.Proofs.Key.Clause
import CreateTable.Proofs.Key.Columns
import CreateTable.Proofs.Key.CutOff
import CreateTable.Proofs.Key.Layout
import CreateTable.Proofs.Key.Parts
import CreateTable.Proofs.Key.TornParts
import CreateTable.Proofs.Printing.Column
import CreateTable.Proofs.Printing.Key
import CreateTable.Proofs.Printing.Lexing
import CreateTable.Proofs.Printing.Name
import CreateTable.Proofs.Printing.RoundTrip
import CreateTable.Proofs.Printing.Spacing
import CreateTable.Proofs.Printing.Target
import CreateTable.Proofs.Session.DataType
import CreateTable.Proofs.Session.Key
import CreateTable.Proofs.Session.LetterCase
import CreateTable.Proofs.Session.Position
import CreateTable.Proofs.Session.Progress
import CreateTable.Proofs.Session.Slices
import CreateTable.Proofs.Statement.Closing
import CreateTable.Proofs.Statement.Columns
import CreateTable.Proofs.Statement.Comment
import CreateTable.Proofs.Statement.CommentScan
import CreateTable.Proofs.Statement.CutOff
import CreateTable.Proofs.Statement.Dispatch
import CreateTable.Proofs.Statement.ItemCutOff
import CreateTable.Proofs.Statement.Layout
import CreateTable.Proofs.Statement.WellFormed
import CreateTable.Proofs.Text.Bytes
import CreateTable.Proofs.Text.Location
import CreateTable.Proofs.Text.Search
import CreateTable.Proofs.Text.Slice
import CreateTable.Proofs.Token.Extent
import CreateTable.Proofs.Token.Lexer
import CreateTable.Proofs.Token.Number
import CreateTable.Proofs.Token.Numeral
import CreateTable.Proofs.Token.Order
import CreateTable.Proofs.Token.Rest
import CreateTable.Proofs.Token.Scan
import CreateTable.Proofs.Token.Stop
import CreateTable.Proofs.Token.Word
import CreateTable.Reading
import CreateTable.Session
import CreateTable.Source
import CreateTable.Table
import CreateTable.Text.AsciiCase
import CreateTable.Text.Location
import CreateTable.Text.Unicode
import CreateTable.Token.Basic
import CreateTable.Token.Lexer
