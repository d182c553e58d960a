import TruthTable.Token
import TruthTable.Numeral

/-!
# Error — why an expression is refused

An `ExprError` is a refusal that the user is told about: it names its cause, and
`ExprError.message` words it.  A `Failure` is either such a refusal or a numeral past the digit
limit, which no message of the first kind covers.

* `ExprError.message` — the only place where the wording of a refusal is decided.
* `Failure.tooManyVars` — the refusal of a table that is too large; its message has to write the
  limit and the number of rows, either of which may be past the digit limit.
-/

namespace TruthTable

/-- Why a postfix sequence denotes no expression. -/
inductive Malformed where
  /-- An operator found too few operands before it. -/
  | missingOperand (o : Operator)
  /-- A structural mark has no meaning in postfix form. -/
  | structural (m : Mark)
  /-- The whole sequence leaves no value, or more than one. -/
  | leftover
  deriving DecidableEq, Repr

/-- The wording of a malformed sequence. -/
def Malformed.message : Malformed → String
  | missingOperand o => s!"{o.name} missing operand"
  | structural m => s!"Unexpected {m.name} in postfix sequence"
  | leftover => "Invalid expression"

/-- A **refusal of the compile-and-compare pipeline** that is reported to the user. -/
inductive ExprError where
  /-- A character that starts no token; positions count from one. -/
  | unexpectedChar (position : Nat) (char : Char)
  | mismatchedParens
  | malformed (cause : Malformed)
  | undefinedVar (name : String)
  /-- The table would range over more variables than the limit allows. -/
  | tooManyVars (count : Nat) (limit : Int)
  deriving DecidableEq, Repr

/-- The wording shown to the user. -/
def ExprError.message : ExprError → String
  | unexpectedChar p c => s!"Unexpected character '{c}' at position {p}"
  | mismatchedParens => "Mismatched parentheses"
  | malformed cause => cause.message
  | undefinedVar n => s!"Variable '{n}' is undefined"
  | tooManyVars n limit =>
    s!"Too many variables: {n} (limit is {limit}, table would have {Nat.pow 2 n} rows)"

/-- **What stops a compilation or a comparison**: a refusal, or a numeral past the digit limit. -/
inductive Failure where
  | expr (e : ExprError)
  | digits (e : Numeral.LimitError)
  deriving DecidableEq, Repr

namespace Failure

/-- The wording of the failure. -/
def message : Failure → String
  | expr e => e.message
  | digits e => e.message

/-- **A table over too many variables.**  The refusal writes the limit and the number of rows the
table would have, so where one of them cannot be written the digit limit fails instead. -/
def tooManyVars (count : Nat) (limit : Int) : Failure :=
  if Numeral.writable (Nat.pow 2 count) && Numeral.writable limit.natAbs then
    expr (.tooManyVars count limit)
  else digits .writing

end Failure

end TruthTable
