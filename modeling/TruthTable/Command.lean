import TruthTable.Report
import TruthTable.Diagram
import TruthTable.Options

/-!
# Command — comparing two expressions from the command line

The command loads its settings, compares the two expressions and prints the report; it may also list
the rows at which each expression is true, and draw the tree of the first.  Its exit status tells
the verdict.

* `Command.run` — what the command does with its arguments, in a given world.
* `Outcome` — the exit status and everything that is written.
* `Report.print` — the report as the command prints it.
-/

namespace TruthTable

/-! ## The report in print -/

/-- A list of numbers in brackets. -/
def printNumbers (ns : List Nat) : String := "[" ++ ", ".intercalate (ns.map toString) ++ "]"

namespace Report

/-- The table of the rows that are shown. -/
def printRows (r : Report) : List String :=
  if r.displayRows.isEmpty then ["No rows to display."]
  else match Table.lines r.names r.displayRows with
    | .ok lines => lines
    | .error e => [e.message]

/-- The verdict in one line. -/
def summary (r : Report) : String :=
  if r.equivalent then "equivalent"
  else s!"{Table.differCount r.rows} of {r.rows.length} rows differ"

/-- **The report as the command prints it.** -/
def print (r : Report) : List String :=
  let names := if r.names.isEmpty then "-" else ", ".intercalate r.names
  ["expr1: " ++ r.markup1, "expr2: " ++ r.markup2, "Variables: " ++ names] ++
    r.printRows ++ [r.summary]

end Report

/-! ## The command -/

/-- **What surrounds the command**: the environment, the files, the drawing program, and how far the
interpreter goes. -/
structure World where
  environment : Environment
  files : String → FileContent
  program : Diagram.Program
  /-- The room for calls within one another. -/
  room : Room := .standard
  /-- The limits within which a settings file is read. -/
  limits : Json.Limits := .standard

/-- **What the command leaves behind.** -/
structure Outcome where
  status : Nat
  out : List String := []
  err : List String := []
  /-- The runs of the drawing program. -/
  calls : List Diagram.Call := []
  deriving DecidableEq, Repr

/-- How the command ends. -/
inductive Ending where
  | usage (e : UsageError)
  | help
  | finished (o : Outcome)
  deriving DecidableEq, Repr

/-- **What breaks the command off** with no exit status of its own. -/
inductive Crash where
  | load (e : LoadFailure)
  | failure (e : Failure)
  /-- There is no room for going down the tree that is to be drawn. -/
  | tooDeep
  /-- The second expression has no text. -/
  | missingText
  deriving Repr

/-- The wording of a break-off. -/
def Crash.message : Crash → String
  | load e => e.message
  | failure e => e.message
  | tooDeep => ""
  | missingText => "expected string or bytes-like object, got 'list'"

namespace Command

/-- The expressions have the same truth function. -/
def equivalentStatus : Nat := 0

/-- An expression is refused. -/
def refusedStatus : Nat := 1

/-- The settings are refused. -/
def configStatus : Nat := 2

/-- The expressions differ. -/
def differentStatus : Nat := 3

/-- The settings of a command line: file, environment and options, in layers. -/
def settings (w : World) (a : Arguments) : Except LoadFailure Settings := do
  let s ← Settings.load w.limits a.config w.files w.environment
  (a.layer.over s.draft).validate.mapError .config

/-- The events that go to the error stream. -/
def log (verbose : Bool) (events : List Event) : List String :=
  (events.filter fun e => verbose || e.isWarning).map Event.line

/-- The row numbers at which an expression is true, as a line. -/
def mintermLine (columns : List String) (name text : String) : Except Failure String := do
  let f ← Formula.compile text
  let indices ← (f.truthIndices columns).mapError .expr
  return s!"{name} minterms: {printNumbers indices}"

/-- What the command writes **besides the report**. -/
structure Addition where
  out : List String := []
  err : List String := []
  calls : List Diagram.Call := []

/-- The row numbers of both expressions, if they are asked for. -/
def minterms (a : Arguments) (columns : List String) (text1 text2 : String) :
    Except Failure Addition :=
  if a.minterms then do
    let line1 ← mintermLine columns "expr1" text1
    let line2 ← mintermLine columns "expr2" text2
    let events := Event.ofCompilation text1 ++ Event.ofCompilation text2
    return { out := [line1, line2], err := log a.verbose events }
  else .ok {}

/-- **Draws the tree of an expression** to a path. -/
def drawTree (w : World) (path text : String) : Except Crash Diagram.Drawing := do
  let f ← (Formula.compile text).mapError .failure
  let graph := f.tree.bounded w.room .graph (Diagram.ofExpr Diagram.Sketch.library)
  let d ← graph.mapError fun _ => .tooDeep
  return Diagram.draw w.program path (d.dot {})

/-- What a drawing leaves on the error stream. -/
def drawingErrors (path : String) (d : Diagram.Drawing) : List String :=
  match d.error with
  | some e => [s!"cannot draw {path}: {e.message}"]
  | none => []

/-- The drawing of the first expression, if a path is given that is not empty. -/
def drawing (w : World) (a : Arguments) (text : String) : Except Crash Addition :=
  match a.dot.filter (· ≠ "") with
  | none => .ok {}
  | some path => do
    let d ← drawTree w path text
    let noted := log a.verbose (Event.ofCompilation text)
    return { err := noted ++ drawingErrors path d, calls := d.calls }

/-- The exit status of a report. -/
def status (r : Report) : Nat :=
  if r.error.isSome then refusedStatus
  else if r.equivalent then equivalentStatus
  else differentStatus

/-- **A report with what the options ask for besides**; `noted` is what the comparison left in the
log.  A refused comparison gets no further than its refusal. -/
def present (w : World) (a : Arguments) (text1 text2 : String) (noted : List String) (r : Report) :
    Except Crash Outcome :=
  match r.error with
  | some e => .ok { status := status r, err := noted ++ ["Parse error: " ++ e.message] }
  | none => do
    let listed ← (minterms a r.names text1 text2).mapError .failure
    let drawn ← drawing w a text1
    return {
      status := status r
      out := r.print ++ listed.out
      err := noted ++ listed.err ++ drawn.err
      calls := drawn.calls }

/-- **The comparison of two texts** under the settings. -/
def compare (w : World) (a : Arguments) (s : Settings) (text1 text2 : String) :
    Except Crash Outcome := do
  let r ← (Report.ofTexts w.room text1 text2 s).mapError (.failure ∘ .digits)
  present w a text1 text2 (log a.verbose (Event.ofComparison w.room text1 text2 s)) r

/-- The comparison of a text with no text: only a refusal of the first one is told. -/
def compareMissing (a : Arguments) (text1 : String) : Except Crash Outcome :=
  match Formula.compile text1 with
  | .ok _ => .error .missingText
  | .error (.expr e) =>
    let noted := log a.verbose [.refused text1 none e]
    .ok { status := refusedStatus, err := noted ++ ["Parse error: " ++ e.message] }
  | .error e => .error (.failure e)

/-- **What the command does** with its arguments. -/
def run (w : World) (argv : List String) : Except Crash Ending :=
  match Arguments.parse argv with
  | .error (.usage e) => .ok (.usage e)
  | .error .help => .ok .help
  | .ok a => match settings w a with
    | .error (.config e) =>
      .ok (.finished { status := configStatus, err := ["config error: " ++ e.message] })
    | .error e => .error (.load e)
    | .ok s => match a.expressions with
      | [some text1, some text2] => .finished <$> compare w a s text1 text2
      | some text1 :: _ => .finished <$> compareMissing a text1
      | _ => .error .missingText

end Command

end TruthTable
