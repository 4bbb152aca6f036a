import DocstringFormat.Character.Alphabetic
import DocstringFormat.Character.Blank
import DocstringFormat.Character.Numeric
import DocstringFormat.Character.RangeTable
import DocstringFormat.Character.Uppercase
import DocstringFormat.Character.Width
import DocstringFormat.Character.Word
import DocstringFormat.Command.Arguments
import DocstringFormat.Command.Execute
import DocstringFormat.Command.Grammar
import DocstringFormat.Config
import DocstringFormat.Diff.Compact
import DocstringFormat.Diff.Edit
import DocstringFormat.Diff.Script
import DocstringFormat.Diff.Unified
import DocstringFormat.Docstring.Description
import DocstringFormat.Docstring.FieldLayout
import DocstringFormat.Docstring.Format
import DocstringFormat.Docstring.LinkLayout
import DocstringFormat.Docstring.Literal
import DocstringFormat.Docstring.Paragraph
import DocstringFormat.Docstring.Subject
import DocstringFormat.Docstring.Summary
import DocstringFormat.Error
import DocstringFormat.Event
import DocstringFormat.Fault
import DocstringFormat.Files.Path
import DocstringFormat.Files.Run
import DocstringFormat.Files.Session
import DocstringFormat.Files.Settings
import DocstringFormat.Files.Tree
import DocstringFormat.Main
import DocstringFormat.Markup.Field
import DocstringFormat.Markup.LineKind
import DocstringFormat.Markup.Link
import DocstringFormat.Markup.Shape
import DocstringFormat.Markup.Style
import DocstringFormat.Options
import DocstringFormat.Source.Block
import DocstringFormat.Source.Format
import DocstringFormat.Source.Lexeme
import DocstringFormat.Source.Render
import DocstringFormat.Source.Scan
import DocstringFormat.Source.Token
import DocstringFormat.Text.Basic
import DocstringFormat.Text.Fill
import DocstringFormat.Text.Line
import DocstringFormat.Text.LineEnding
import DocstringFormat.Text.Tab
import DocstringFormat.Text.Width
import DocstringFormat.Toml.Document
import DocstringFormat.Toml.Number
import DocstringFormat.Toml.Quoted
import DocstringFormat.Toml.Value
import DocstringFormat.Proofs.Markup.Spans
import DocstringFormat.Proofs.Docstring.Closing
import DocstringFormat.Proofs.Docstring.Format
import DocstringFormat.Proofs.Docstring.Layout
import DocstringFormat.Proofs.Docstring.TextKept
import DocstringFormat.Proofs.Source.Blanks
import DocstringFormat.Proofs.Source.Coverage
import DocstringFormat.Proofs.Source.Documented
import DocstringFormat.Proofs.Source.Lexeme
import DocstringFormat.Proofs.Source.Place
import DocstringFormat.Proofs.Source.Render
import DocstringFormat.Proofs.Source.Recovery
import DocstringFormat.Proofs.Source.RoundTrip
import DocstringFormat.Proofs.Source.Scan
import DocstringFormat.Proofs.Source.Splice
import DocstringFormat.Proofs.Source.StringToken
import DocstringFormat.Proofs.Source.ClosingBytes
import DocstringFormat.Proofs.Source.Touched
import DocstringFormat.Proofs.Text.Words
import DocstringFormat.Proofs.Text.Bytes
import DocstringFormat.Proofs.Text.Lines
import DocstringFormat.Proofs.Text.LineEnding
import DocstringFormat.Proofs.Text.Fill
import DocstringFormat.Proofs.Source.Moved
import DocstringFormat.Proofs.Source.StringRows
import DocstringFormat.Proofs.Source.RowTokens
import DocstringFormat.Proofs.Source.Revision
import DocstringFormat.Proofs.Source.Rescan
import DocstringFormat.Proofs.Source.Preserved
import DocstringFormat.Proofs.Text.Characters
import DocstringFormat.Proofs.Docstring.Characters
import DocstringFormat.Proofs.Source.Unchanged
import DocstringFormat.Proofs.Source.Correspondence
import DocstringFormat.Proofs.Source.Idempotence
import DocstringFormat.Proofs.Source.Nesting
import DocstringFormat.Proofs.Text.Cut
import DocstringFormat.Proofs.Docstring.Checked
import DocstringFormat.Proofs.Source.Totality
import DocstringFormat.Proofs.Command.Precedence
import DocstringFormat.Proofs.Files.Tree
import DocstringFormat.Proofs.Files.Process
import DocstringFormat.Proofs.Files.Run
import DocstringFormat.Proofs.Docstring.LinkWords
import DocstringFormat.Proofs.Docstring.SummaryWidth
import DocstringFormat.Proofs.Source.Header
import DocstringFormat.Proofs.Text.FirstFit
import DocstringFormat.Proofs.Source.BlankLines
import DocstringFormat.Proofs.Text.Breaks
import DocstringFormat.Proofs.Docstring.LineBreaks
import DocstringFormat.Proofs.Docstring.Reread
import DocstringFormat.Proofs.Docstring.Sentence
import DocstringFormat.Proofs.Text.Margin
import DocstringFormat.Proofs.Docstring.Paragraphs
import DocstringFormat.Proofs.Text.TrailingBlanks
import DocstringFormat.Proofs.Docstring.TrailingBlanks
import DocstringFormat.Proofs.Character.Uppercase
import DocstringFormat.Proofs.Docstring.SummaryStability
import DocstringFormat.Proofs.Docstring.Settled
import DocstringFormat.Proofs.Source.StringLiteral
import DocstringFormat.Proofs.Markup.FieldLists
