import TruthTable.Table
import TruthTable.Settings

/-!
# Report — the comparison of two texts

A report is what a front end shows for two texts: the rows of their table, the variables, and both
expressions in the chosen markup; or, where a text or the table is refused, the refusal and nothing
else.

* `compareTexts` — both formulas and their rows, or what stops the comparison.
* `Report.ofTexts` — the report of two texts.
* `Event.ofComparison` — what a comparison notes in the log.
-/

namespace TruthTable

/-- **Both formulas and the rows of their table.**  The first text is compiled before the second. -/
def compareTexts (text1 text2 : String) (maxVars : Int) :
    Except Failure (Formula × Formula × List Row) := do
  let f ← Formula.compile text1
  let g ← Formula.compile text2
  let rows ← Table.compare f g maxVars
  return (f, g, rows)

/-- **What a front end shows** for two texts. -/
structure Report where
  rows : List Row
  names : List String
  error : Option ExprError := none
  markup1 : String := ""
  markup2 : String := ""
  onlyDiff : Bool
  deriving DecidableEq, Repr

namespace Report

/-- The rows that are shown. -/
def displayRows (r : Report) : List Row := if r.onlyDiff then Table.differences r.rows else r.rows

/-- The texts denote the **same truth function**: neither is refused and no row differs. -/
def equivalent (r : Report) : Bool := r.error.isNone && Table.agree r.rows

/-- The report of a comparison that is refused: no rows and no markup. -/
def refused (s : Settings) (e : ExprError) : Report :=
  { rows := [], names := [], error := some e, onlyDiff := s.onlyDiff }

/-- The report of a comparison that went through. -/
def ofFormulas (room : Room) (s : Settings) (f g : Formula) (rows : List Row) : Report :=
  { rows
    names := Formula.union [f, g]
    markup1 := f.tree.renderOrEmpty room s.markup
    markup2 := g.tree.renderOrEmpty room s.markup
    onlyDiff := s.onlyDiff }

/-- **The report of two texts.**  A refusal is part of the report; a numeral past the digit limit
leaves none. -/
def ofTexts (room : Room) (text1 text2 : String) (s : Settings) :
    Except Numeral.LimitError Report :=
  match compareTexts text1 text2 s.maxVars with
  | .ok (f, g, rows) => .ok (ofFormulas room s f g rows)
  | .error (.expr e) => .ok (refused s e)
  | .error (.digits e) => .error e

end Report

/-! ## The log -/

/-- **What is noted in the log.** -/
inductive Event where
  | compiled (f : Formula)
  /-- The table of two formulas is formed, over this number of variables. -/
  | compared (width : Nat) (rows : List Row)
  /-- A comparison is refused; a second text that is missing shows as an empty list. -/
  | refused (text1 : String) (text2 : Option String) (e : ExprError)
  | notRendered (markup : String) (e : RenderError)
  deriving Repr

namespace Event

/-- The event is noted even where details are not asked for. -/
def isWarning : Event → Bool
  | notRendered .. => true
  | _ => false

/-- The wording of an event. -/
def message : Event → String
  | compiled f =>
    s!"compiled {Text.quote f.text}: {f.tokens.length} tokens, " ++
      s!"{f.sequence.length} rpn, vars={Text.quoteList f.names}"
  | compared width rows =>
    s!"compared over {width} variables: {rows.length} rows, {Table.differCount rows} differ"
  | refused text1 text2 e =>
    let shown := (text2.map Text.quote).getD "[]"
    s!"comparison of {Text.quote text1} and {shown} failed: {e.message}"
  | notRendered markup e => s!"{markup} rendering failed: {e.kind}"

/-- The event as a line of the log. -/
def line (e : Event) : String :=
  let level := if e.isWarning then "WARNING" else "DEBUG"
  s!"{level} boolcompare.boolalg.tools: {e.message}"

/-- The event of a compilation, if it went through. -/
def ofCompilation (text : String) : List Event :=
  match Formula.compile text with
  | .ok f => [compiled f]
  | .error _ => []

/-- The event of a tree that has no form in the markup. -/
def ofRendering (room : Room) (e : Expr) (markup : String) : List Event :=
  match e.render room markup with
  | .ok _ => []
  | .error err => [notRendered markup err]

/-- **The events of a comparison**, in the order in which they come about. -/
def ofComparison (room : Room) (text1 text2 : String) (s : Settings) : List Event :=
  match compareTexts text1 text2 s.maxVars with
  | .ok (f, g, rows) =>
    [compiled f, compiled g, compared (Formula.union [f, g]).length rows] ++
      ofRendering room f.tree s.markup ++ ofRendering room g.tree s.markup
  | .error (.expr e) =>
    let first := ofCompilation text1
    let second := if first.isEmpty then [] else ofCompilation text2
    first ++ second ++ [refused text1 (some text2) e]
  | .error (.digits _) => []

end Event

end TruthTable
