/-!
# Token — the alphabet of boolean expressions

A boolean expression is written over variables, the constants `0` and `1`, three binary
**connectives**, negation, and three structural **marks**: the two parentheses and the apostrophe
that negates what stands before it.  The same alphabet serves the infix stream that the lexer reads
and the postfix sequence that the evaluator runs; only the infix stream holds marks.

* `Operator.precedence` — how tightly an operator binds: `not`, then `and`, then `xor`, then `or`.
* `Token.endsValue` / `Token.startsValue` — where two neighbours leave an `and` unwritten.
-/

namespace TruthTable

/-- A **binary connective**. -/
inductive Connective where
  | and
  | xor
  | or
  deriving DecidableEq, Repr

namespace Connective

/-- How tightly the connective binds; a larger number binds tighter. -/
def precedence : Connective → Nat
  | and => 3
  | xor => 2
  | or => 1

/-- The truth function of the connective. -/
def apply : Connective → Bool → Bool → Bool
  | and, a, b => a && b
  | xor, a, b => a != b
  | or, a, b => a || b

/-- The connective's name in capitals, as messages and diagrams write it. -/
def name : Connective → String
  | and => "AND"
  | xor => "XOR"
  | or => "OR"

theorem precedence_injective {c d : Connective} (h : c.precedence = d.precedence) : c = d := by
  cases c <;> cases d <;> simp [precedence] at h ⊢

end Connective

/-- An **operator**: negation or a binary connective. -/
inductive Operator where
  | not
  | conn (c : Connective)
  deriving DecidableEq, Repr

namespace Operator

/-- Negation binds tighter than every connective. -/
def precedence : Operator → Nat
  | not => 4
  | conn c => c.precedence

/-- The connectives associate to the left; negation does not, so `!!A` stacks. -/
def leftAssoc : Operator → Bool
  | not => false
  | conn _ => true

/-- The operator's name in capitals. -/
def name : Operator → String
  | not => "NOT"
  | conn c => c.name

/-- A waiting operator **yields** to an incoming one that binds no tighter; among operators that
bind alike, only if they associate to the left. -/
def yieldsTo (waiting incoming : Operator) : Bool :=
  if incoming.leftAssoc then incoming.precedence ≤ waiting.precedence
  else incoming.precedence < waiting.precedence

theorem precedence_conn_lt_not (c : Connective) : (conn c).precedence < not.precedence := by
  cases c <;> decide

end Operator

/-- A **structural mark**: it shapes the infix stream and stands for no step of evaluation. -/
inductive Mark where
  | lparen
  | rparen
  /-- The apostrophe, which negates the value before it. -/
  | prime
  deriving DecidableEq, Repr

/-- The word a message uses for the mark. -/
def Mark.name : Mark → String
  | lparen => "LParen"
  | rparen => "RParen"
  | prime => "PostfixNot"

/-- A **token** of an expression. -/
inductive Token where
  | var (name : String)
  | const (value : Bool)
  | mark (m : Mark)
  /-- An operator; `prefixed` is set on one written in front of its operand, such as `!`. -/
  | op (o : Operator) (prefixed : Bool)
  deriving DecidableEq, Repr

namespace Token

/-- An operator between its operands, or in a postfix sequence. -/
abbrev plain (o : Operator) : Token := op o false

/-- The token **ends a value**: a value that starts right after it is joined to it by `and`. -/
def endsValue : Token → Bool
  | var _ | const _ | mark .rparen => true
  | _ => false

/-- The token **starts a value**. -/
def startsValue : Token → Bool
  | var _ | const _ | mark .lparen | op .not true => true
  | _ => false

/-- The name of a variable token. -/
def name? : Token → Option String
  | var n => some n
  | _ => none

end Token

end TruthTable
