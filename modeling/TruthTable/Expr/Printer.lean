import TruthTable.Expr

/-!
# Expr/Printer — the four written forms of an expression

* `Expr.toText` — the input language with as few parentheses as it needs; negation is an apostrophe.
* `Expr.toLatex` — typeset markup; negation is a bar over its operand, which groups it.
* `Expr.toPython` — boolean operators as words, with every compound operand in parentheses.
* `Expr.outline` — the tree spelled out node by node.

Where there is no room for going down the tree its forms are withheld by the callers; here every
tree has its form.
-/

namespace TruthTable

/-- The sign of a connective in the input language. -/
def Connective.sign : Connective → String
  | and => "*"
  | xor => "^"
  | or => "+"

/-- The command for a connective in typeset markup. -/
def Connective.command : Connective → String
  | and => "\\cdot"
  | xor => "\\oplus"
  | or => "+"

/-- The word for a connective. -/
def Connective.word : Connective → String
  | and => "and"
  | xor => "^"
  | or => "or"

/-- The class of a node in an outline. -/
def Connective.title : Connective → String
  | and => "And"
  | xor => "Xor"
  | or => "Or"

namespace Expr

/-- A text in parentheses where `needed`. -/
def paren (needed : Bool) (s : String) : String := if needed then "(" ++ s ++ ")" else s

/-- An apostrophe may follow a leaf or another apostrophe without parentheses. -/
def takesPrime : Expr → Bool
  | var _ | const _ | not _ => true
  | bin .. => false

/-- **The expression in the input language.**  An operand stands in parentheses exactly when it
binds looser than the connective over it. -/
def toText : Expr → String
  | var n => n
  | const b => if b then "1" else "0"
  | not e => paren (!e.takesPrime) e.toText ++ "'"
  | bin c l r =>
    paren (l.precedence < c.precedence) l.toText ++ c.sign ++
      paren (r.precedence < c.precedence) r.toText

/-- The expression in the input language, as an operand of what binds with strength `outer`. -/
def toTextIn (outer : Int) (e : Expr) : String := paren ((e.precedence : Int) < outer) e.toText

/-- **The expression in typeset markup**, as an operand of what binds with strength `outer`.  Under
a bar nothing needs parentheses. -/
def toLatex (outer : Int) : Expr → String
  | var n => n
  | const b => if b then "1" else "0"
  | not e => "\\overline\x7b" ++ e.toLatex 0 ++ "\x7d"
  | bin c l r =>
    let body := l.toLatex c.precedence ++ " " ++ c.command ++ " " ++ r.toLatex c.precedence
    if (c.precedence : Int) < outer then "\\left(" ++ body ++ "\\right)" else body

/-- **The expression with its operators as words.**  Every compound operand is in parentheses, so
the form does not hang on how the words bind. -/
def toPython : Expr → String
  | var n => n
  | const b => if b then "True" else "False"
  | not e => "not " ++ paren (!e.isLeaf) e.toPython
  | bin c l r =>
    paren (!l.isLeaf) l.toPython ++ " " ++ c.word ++ " " ++ paren (!r.isLeaf) r.toPython

/-- The class of the outermost node. -/
def title : Expr → String
  | var _ => "Var"
  | const _ => "Val"
  | not _ => "Not"
  | bin c _ _ => c.title

/-- **The tree spelled out**: the class of each node and its operands in parentheses. -/
def outline : Expr → String
  | var n => "Var(\"" ++ n ++ "\")"
  | const b => if b then "Val(True)" else "Val(False)"
  | not e => "Not(" ++ e.outline ++ ")"
  | bin c l r => c.title ++ "(" ++ l.outline ++ "," ++ r.outline ++ ")"

end Expr

end TruthTable
