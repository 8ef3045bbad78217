import Stencil.Demo.Page
import Stencil.Embed.Declaration
import Stencil.Embed.Directory
import Stencil.Embed.Error
import Stencil.Embed.Expression
import Stencil.Embed.Lexeme
import Stencil.Embed.Literal
import Stencil.Embed.Tree
import Stencil.Helper.Action
import Stencil.Helper.Basic
import Stencil.Html
import Stencil.Main
import Stencil.Markup.Call
import Stencil.Markup.Document
import Stencil.Markup.Error
import Stencil.Markup.Node
import Stencil.Markup.Path
import Stencil.Markup.Segment
import Stencil.Markup.Token
import Stencil.Markup.Word
import Stencil.Number.Basic
import Stencil.Number.Double
import Stencil.Number.Notation
import Stencil.Number.Numeral
import Stencil.Number.Shortest
import Stencil.Render.Cache
import Stencil.Render.Environment
import Stencil.Render.Error
import Stencil.Render.Renderer
import Stencil.Render.Run
import Stencil.Render.Scope
import Stencil.Render.Template
import Stencil.Script.Basic
import Stencil.Script.Run
import Stencil.Session.Basic
import Stencil.Table
import Stencil.Template.Compile
import Stencil.Template.Op
import Stencil.Template.Options
import Stencil.Text.Blank
import Stencil.Text.Bytes
import Stencil.Text.Identifier
import Stencil.Text.Pieces
import Stencil.Text.Quoted
import Stencil.Text.Ranges
import Stencil.Text.Scan
import Stencil.Text.Shapeless
import Stencil.Text.Shown
import Stencil.Value.Basic
import Stencil.Value.Shown
import Stencil.Value.Text
import Stencil.Proofs.Render.Interpreter
import Stencil.Proofs.Render.Agreement
import Stencil.Proofs.Render.Interpretation
import Stencil.Proofs.Pieces
import Stencil.Proofs.Markup.Quoting
import Stencil.Proofs.Markup.Segmentation
import Stencil.Proofs.Markup.Standing
import Stencil.Proofs.Markup.WordRow
import Stencil.Proofs.Markup.Drafting
import Stencil.Proofs.Markup.Placement
import Stencil.Proofs.Render.Concatenation
import Stencil.Proofs.Markup.Spacing
import Stencil.Proofs.Markup.Printing
import Stencil.Proofs.Markup.Commenting
import Stencil.Proofs.Markup.Printable
import Stencil.Proofs.Markup.RoundTrip
import Stencil.Proofs.Markup.Arguments
import Stencil.Proofs.Render.Congruence
import Stencil.Proofs.Render.DataFrame
import Stencil.Proofs.Render.Reach
import Stencil.Proofs.Render.Termination
import Stencil.Proofs.Render.Gap
import Stencil.Proofs.Render.Comparison
import Stencil.Proofs.Render.Inclusion
import Stencil.Proofs.Render.Consultation
import Stencil.Proofs.Render.Refilling
import Stencil.Proofs.Render.Inlining
import Stencil.Proofs.Markup.Closing
import Stencil.Proofs.Markup.Tokenization
import Stencil.Proofs.Markup.Derivation
import Stencil.Proofs.Markup.Paths
import Stencil.Proofs.Markup.Heads
import Stencil.Proofs.Markup.Nesting
import Stencil.Proofs.Markup.Backslashes
import Stencil.Proofs.Markup.WordGrammar
import Stencil.Proofs.Markup.StringLiteral
import Stencil.Proofs.Html
import Stencil.Proofs.Render.Escaping
import Stencil.Proofs.Checked.Slice
import Stencil.Proofs.Checked.Lexing
import Stencil.Proofs.Checked.Words
import Stencil.Proofs.Checked.Calls
import Stencil.Proofs.Checked.Parsing
import Stencil.Proofs.Checked.Excerpt
import Stencil.Proofs.Render.Depth
import Stencil.Proofs.Render.Failure
import Stencil.Proofs.Render.Slots
import Stencil.Proofs.Session.Caching
import Stencil.Proofs.Render.KnownHelpers
import Stencil.Proofs.Render.Insertion
import Stencil.Proofs.Render.Inversion
import Stencil.Proofs.Render.Tags
import Stencil.Proofs.Render.Deferral
import Stencil.Proofs.Demo.Page
import Stencil.Proofs.Markup.StrayQuote
import Stencil.Proofs.Render.QuotedName
import Stencil.Proofs.Render.Weakening
import Stencil.Proofs.Render.Frames
import Stencil.Proofs.Entities
import Stencil.Proofs.Render.Invariance
import Stencil.Proofs.Render.Sections
import Stencil.Proofs.Render.Overrides
import Stencil.Proofs.Render.ParamContexts
import Stencil.Proofs.Number.Numerals
import Stencil.Proofs.Markup.NumeralWord
import Stencil.Proofs.Render.Numerals
import Stencil.Proofs.Value.Equality
import Stencil.Proofs.Render.Substitution
import Stencil.Proofs.Markup.Levels
import Stencil.Proofs.Markup.Lowering
