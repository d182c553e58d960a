import TruthTable.Formula
import TruthTable.Text.Quoted

/-!
# Table — the truth tables of two formulas side by side

A row holds an assignment and the values of two formulas under it.  A table over too many variables
is refused before any row is formed.

* `Table.compare` — all rows of two formulas over their common variables.
* `Table.differences` — the rows at which the two differ.
* `Table.lines` — the table as text, in aligned columns.
-/

namespace TruthTable

/-- One **row**: an assignment and the values of two formulas under it. -/
structure Row where
  assignment : Assignment
  result1 : Bool
  result2 : Bool
  deriving DecidableEq, Repr

/-- The two formulas agree at the row. -/
def Row.same (r : Row) : Bool := r.result1 == r.result2

namespace Table

/-- The row of an assignment. -/
def row (f g : Formula) (a : Assignment) : Except ExprError Row := do
  let result1 ← f.eval a.value?
  let result2 ← g.eval a.value?
  return { assignment := a, result1, result2 }

/-- **The rows of two formulas** over the union of their variables, which may number at most
`limit`. -/
def compare (f g : Formula) (limit : Int) : Except Failure (List Row) :=
  let names := Formula.union [f, g]
  if limit < names.length then .error (.tooManyVars names.length limit)
  else ((Assignment.all names).mapM (row f g)).mapError .expr

/-- The rows at which the formulas **differ**, in order. -/
def differences (rows : List Row) : List Row := rows.filter (!·.same)

/-- The number of rows at which the formulas differ. -/
def differCount (rows : List Row) : Nat := rows.countP (!·.same)

/-- The formulas agree at every row. -/
def agree (rows : List Row) : Bool := rows.all Row.same

/-! ## Text -/

/-- A row has no value for a column. -/
structure MissingColumn where
  name : String
  deriving DecidableEq, Repr

/-- The wording names the column. -/
def MissingColumn.message (e : MissingColumn) : String := Text.quote e.name

/-- The heads of the two result columns. -/
def resultHeads : List String := ["expr1", "expr2"]

/-- A text with spaces at the right, up to the width. -/
def padRight (width : Nat) (s : String) : String :=
  s ++ String.ofList (List.replicate (width - s.length) ' ')

/-- A truth value as a digit, **as wide as the head of its column**. -/
def cell (b : Bool) (head : String) : String := padRight head.length (if b then "1" else "0")

/-- The values of a row, column by column. -/
def rowValues (columns : List String) (r : Row) : Except MissingColumn (List Bool) := do
  let values ← columns.mapM fun n => match r.assignment.value? n with
    | some b => .ok b
    | none => .error ⟨n⟩
  return values ++ [r.result1, r.result2]

/-- **One row as a line**: a cell under each head, and whether the results agree. -/
def line (columns : List String) (r : Row) : Except MissingColumn String := do
  let values ← rowValues columns r
  let cells := List.zipWith cell values (columns ++ resultHeads)
  return " ".intercalate cells ++ " " ++ (if r.same then "ok" else "DIFF")

/-- **The table as lines**: the heads, then the rows. -/
def lines (columns : List String) (rows : List Row) : Except MissingColumn (List String) := do
  let body ← rows.mapM (line columns)
  return " ".intercalate (columns ++ resultHeads) :: body

end Table

end TruthTable
