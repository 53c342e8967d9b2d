import ChapelSource.Print
import ChapelSource.Builder
import ChapelSource.SymbolTable
import ChapelSource.Interner
import ChapelSource.Grouping.Tree
import ChapelSource.Grouping.Token
import ChapelSource.Grouping.Bracketed
import ChapelSource.Grouping.Reader
import ChapelSource.Visit
import ChapelSource.Reached
import ChapelSource.Literal.Decode
import ChapelSource.Access
import ChapelSource.Statement
import ChapelSource.CommentLine
import ChapelSource.Branching
import ChapelSource.Uncomment
import ChapelSource.Shape
import ChapelSource.Printer
import ChapelSource.Bracket
import ChapelSource.Grouping.Value
import ChapelSource.Loose
import ChapelSource.Head
import ChapelSource.Range
import ChapelSource.Spacing
import ChapelSource.LineBreak
import ChapelSource.Term.Tree
import ChapelSource.Term.Reader
import ChapelSource.Name
import ChapelSource.Signature
import ChapelSource.Declared
import ChapelSource.ModuleAccess
import ChapelSource.Proofs.Writing
import ChapelSource.Proofs.Literal
import ChapelSource.Proofs.Word
import ChapelSource.Proofs.Access.Text
import ChapelSource.Proofs.Access.Settling
import ChapelSource.Proofs.Statement
import ChapelSource.Proofs.CommentLine
import ChapelSource.Proofs.Branching
import ChapelSource.Proofs.Grouping.Text
import ChapelSource.Proofs.Grouping.Reading
import ChapelSource.Proofs.Grouping.Rotation
import ChapelSource.Proofs.Grouping.Ranks
import ChapelSource.Proofs.Grouping.RoundTrip
import ChapelSource.Proofs.Grouping.Exposed
import ChapelSource.Proofs.Tally.Layout
import ChapelSource.Proofs.Tally.Construct
import ChapelSource.Proofs.Tally.Faults
import ChapelSource.Proofs.Comments.Layout
import ChapelSource.Proofs.Comments.Construct
import ChapelSource.Proofs.Comments.Width
import ChapelSource.Proofs.Comments.Choice
import ChapelSource.Proofs.Comments.Print
import ChapelSource.Proofs.Printer
import ChapelSource.Proofs.Brackets.Layout
import ChapelSource.Proofs.Brackets.Construct
import ChapelSource.Proofs.Brackets.Print
import ChapelSource.Proofs.Grouping.Value
import ChapelSource.Proofs.Grouping.Labels
import ChapelSource.Proofs.Loose.Text
import ChapelSource.Proofs.Loose.Reading
import ChapelSource.Proofs.Loose.Regrouping
import ChapelSource.Proofs.Head
import ChapelSource.Proofs.Range.Text
import ChapelSource.Proofs.Range.Settling
import ChapelSource.Proofs.Grouping.Symbols
import ChapelSource.Proofs.Grouping.Settling
import ChapelSource.Proofs.Grouping.Unwrapping
import ChapelSource.Proofs.Grouping.Necessity
import ChapelSource.Proofs.Spacing
import ChapelSource.Proofs.Tally.LineBreaks
import ChapelSource.Proofs.Term.Reading
import ChapelSource.Proofs.NameList
import ChapelSource.Proofs.Term.Text
import ChapelSource.Proofs.StringPool
import ChapelSource.Proofs.Interner
import ChapelSource.Proofs.Construction
import ChapelSource.Proofs.Builder
import ChapelSource.Proofs.Signature.Function
import ChapelSource.Proofs.Signature.Text
import ChapelSource.Proofs.Signature.Reading
import ChapelSource.Proofs.Declared
import ChapelSource.Proofs.ModuleAccess
