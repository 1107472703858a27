import Doctype.Cursor
import Doctype.Main
import Doctype.Proofs.Attribute.Acceptance
import Doctype.Proofs.Attribute.Alphabet
import Doctype.Proofs.Attribute.Cost
import Doctype.Proofs.Attribute.Counting
import Doctype.Proofs.Attribute.Cycle
import Doctype.Proofs.Attribute.Following
import Doctype.Proofs.Attribute.Grammar
import Doctype.Proofs.Attribute.Nesting
import Doctype.Proofs.Attribute.Normalization
import Doctype.Proofs.Attribute.Pieces
import Doctype.Proofs.Attribute.Raising
import Doctype.Proofs.Attribute.Reading
import Doctype.Proofs.Attribute.Size
import Doctype.Proofs.Attribute.Tokens
import Doctype.Proofs.Attribute.WhiteSpace
import Doctype.Proofs.Content.Alphabet
import Doctype.Proofs.Content.Blanks
import Doctype.Proofs.Content.NameTokens
import Doctype.Proofs.Content.Names
import Doctype.Proofs.Content.Offsets
import Doctype.Proofs.Content.Raising
import Doctype.Proofs.Content.RoundTrip
import Doctype.Proofs.Content.Stuck
import Doctype.Proofs.Cursor.Runs
import Doctype.Proofs.Declaration.Alphabet
import Doctype.Proofs.Declaration.Definition
import Doctype.Proofs.Event.Replay
import Doctype.Proofs.Graph.Alphabet
import Doctype.Proofs.Graph.Build
import Doctype.Proofs.Graph.Counting
import Doctype.Proofs.Graph.Duplicates
import Doctype.Proofs.Graph.Interleaving
import Doctype.Proofs.Graph.Marker
import Doctype.Proofs.Graph.Order
import Doctype.Proofs.Graph.Raising
import Doctype.Proofs.Graph.Representation
import Doctype.Proofs.Graph.WellFormed
import Doctype.Proofs.Markup.Binding
import Doctype.Proofs.Markup.Bounds
import Doctype.Proofs.Markup.Composition
import Doctype.Proofs.Markup.Confinement
import Doctype.Proofs.Markup.Deepening
import Doctype.Proofs.Markup.Document
import Doctype.Proofs.Markup.Handling
import Doctype.Proofs.Markup.Lines
import Doctype.Proofs.Markup.Nested
import Doctype.Proofs.Markup.Outcomes
import Doctype.Proofs.Markup.Printing
import Doctype.Proofs.Markup.Progress
import Doctype.Proofs.Markup.Prolog
import Doctype.Proofs.Markup.Raising
import Doctype.Proofs.Markup.Rescan
import Doctype.Proofs.Markup.Sections
import Doctype.Proofs.Markup.Size
import Doctype.Proofs.Reachability.Closure
import Doctype.Proofs.Reachability.Roots
import Doctype.Proofs.Reference.Characters
import Doctype.Proofs.Reference.Decoding
import Doctype.Proofs.Reference.Passing
import Doctype.Proofs.Reference.Recognition
import Doctype.Proofs.Text.Lexer
import Doctype.Proofs.Text.LineEnds
import Doctype.Proofs.Text.Mark
import Doctype.Proofs.Xml.Legality
import Doctype.Proofs.Xml.Lossless
import Doctype.Proofs.Xml.Mirroring
import Doctype.Proofs.Xml.Narrowing
import Doctype.Proofs.Xml.Nesting
import Doctype.Proofs.Xml.Order
import Doctype.Proofs.Xml.Reader
import Doctype.Proofs.Xml.Rereading
import Doctype.Proofs.Xml.Values
import Doctype.Proofs.Xml.Writing
