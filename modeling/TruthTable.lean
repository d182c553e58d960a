import TruthTable.Main
import TruthTable.Expr.Random
import TruthTable.Proofs.DigitLimit
import TruthTable.Proofs.Enumeration
import TruthTable.Proofs.Formula
import TruthTable.Proofs.Grammar
import TruthTable.Proofs.Grammar.Alternation
import TruthTable.Proofs.Grammar.Reordering
import TruthTable.Proofs.Equivalence
import TruthTable.Proofs.Yard
import TruthTable.Proofs.Stream
import TruthTable.Proofs.Acceptance
import TruthTable.Proofs.Identifier
import TruthTable.Proofs.Evaluation
import TruthTable.Proofs.Lexing
import TruthTable.Proofs.Rotation
import TruthTable.Proofs.Grammar.Notation
import TruthTable.Proofs.RoundTrip
import TruthTable.Proofs.Typeset
import TruthTable.Proofs.Composition
import TruthTable.Proofs.Report
import TruthTable.Proofs.Layout
import TruthTable.Proofs.Unprimed
import TruthTable.Proofs.Grammar.Words
import TruthTable.Proofs.Words
import TruthTable.Proofs.Disagreement
import TruthTable.Proofs.Tabulation
import TruthTable.Proofs.Arguments
import TruthTable.Proofs.Verdict
import TruthTable.Proofs.RowNumbers
import TruthTable.Proofs.Wording
import TruthTable.Proofs.Drawing
import TruthTable.Proofs.Reading
import TruthTable.Proofs.Utf8
import TruthTable.Proofs.Loading
import TruthTable.Proofs.NaturalOrder
import TruthTable.Proofs.Counting
import TruthTable.Proofs.Display
import TruthTable.Proofs.Setting
import TruthTable.Proofs.Layering
import TruthTable.Proofs.Height
import TruthTable.Proofs.Places
import TruthTable.Proofs.Normalization
import TruthTable.Proofs.Scanning
import TruthTable.Proofs.Junction
import TruthTable.Proofs.Grammar.Parentheses
import TruthTable.Proofs.Parentheses
import TruthTable.Proofs.WrittenForms
import TruthTable.Proofs.Growth
import TruthTable.Proofs.Preorder
import TruthTable.Proofs.DotText
import TruthTable.Proofs.Exchange
import TruthTable.Proofs.Columns
import TruthTable.Proofs.Segments
