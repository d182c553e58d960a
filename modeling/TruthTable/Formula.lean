import TruthTable.Token.Lexer
import TruthTable.Postfix
import TruthTable.VarName
import TruthTable.Assignment

/-!
# Formula — a text compiled for evaluation and display

Compiling a text gives its tokens, their postfix sequence, the tree of that sequence, and the names
of the variables in natural order.  The sequence is what evaluation runs, the tree is for display.

* `Formula.compile` — the formula of a text, or why there is none.
* `Formula.eval` — the value under a valuation.
* `Formula.union` — the variables of several formulas together.
* `Formula.truthIndices` — the rows of a truth table at which a formula is true.
-/

namespace TruthTable

/-- A **compiled text**. -/
structure Formula where
  text : String
  /-- The infix stream, every `and` written out. -/
  tokens : List Token
  /-- The tokens in the order of evaluation. -/
  sequence : List Token
  /-- The variables, distinct and in natural order. -/
  names : List String
  tree : Expr
  deriving DecidableEq, Repr

namespace Formula

/-- **The formula of a text.**  Refusals are found in the order lexing, parentheses, operands; a
digit run past the limit only after them. -/
def compile (text : String) : Except Failure Formula := do
  let tokens ← (tokenize text).mapError .expr
  let sequence ← (Postfix.ofInfix tokens).mapError .expr
  let tree ← (Postfix.toExpr sequence).mapError .expr
  let names ← (VarName.sortChecked (Postfix.names sequence)).mapError .digits
  return { text, tokens, sequence, names, tree }

/-- **The value of a formula** under a valuation. -/
def eval (f : Formula) (v : Valuation) : Except ExprError Bool := Postfix.eval f.sequence v

/-- The variables of several formulas, distinct and in natural order. -/
def union (fs : List Formula) : List String := VarName.sort (fs.flatMap names)

/-- **The row numbers at which the formula is true**, over the given columns. -/
def truthIndices (f : Formula) (columns : List String) : Except ExprError (List Nat) := do
  let values ← (Assignment.all columns).mapM fun a => f.eval a.value?
  return values.zipIdx.filterMap fun (b, i) => if b then some i else none

end Formula

end TruthTable
