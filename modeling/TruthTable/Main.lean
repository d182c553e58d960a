import TruthTable.Command

/-!
# Main — the command as a program

Gathers what surrounds the command, lets it act, and writes what it leaves behind.  No other program
is started from here, so a drawing is reported as one whose program is missing.
-/

namespace TruthTable

/-- The lines that tell how the command is used. -/
def usage : String :=
  "usage: boolcompare [-h] [-d] [-n MAX_VARS] [-c CONFIG] [-m \x7blatex,text,python\x7d]\n" ++
  "                   [--minterms] [--dot PATH] [-v]\n" ++
  "                   expr1 expr2"

/-- What help adds to the usage. -/
def help : String :=
  "Compare the truth tables of two boolean expressions\n\n" ++
  "  -d, --diff      show only differing rows\n" ++
  "  -n, --max-vars  refuse to build tables over more variables than this\n" ++
  "  -c, --config    path to a JSON settings file\n" ++
  "  -m, --markup    how to print the parsed expressions\n" ++
  "  --minterms      print the rows where each expression is true\n" ++
  "  --dot           draw the tree of the first expression to a path (.svg or .png)\n" ++
  "  -v, --verbose   debug logging\n\n" ++
  "  OR      A+B  A|B\n" ++
  "  AND     A*B  A.B  A·B  or adjacency: A B  (A)(B)  A(B)  A!B\n" ++
  "  names   a letter then letters, digits, _ : AB is one variable, not A*B\n" ++
  "  XOR     A^B\n" ++
  "  NOT     postfix A'  (A+B)'  (unicode ‘ ’ also accepted), prefix !A  ~A\n" ++
  "  consts  1 0"

/-- A refusal by the system, as a file content. -/
def refusal : IO.Error → FileContent
  | .noFileOrDirectory .. => .refused 2 "No such file or directory"
  | .permissionDenied .. => .refused 13 "Permission denied"
  | .inappropriateType .. => .refused 21 "Is a directory"
  | _ => .refused 5 "Input/output error"

/-- The content of the file of a path. -/
def readContent (path : String) : IO FileContent := do
  try
    let content ← IO.FS.readBinFile path
    return .bytes content.toList
  catch e => return refusal e

/-- The variables of the environment that settings come from. -/
def readEnvironment : IO Environment := do
  let pairs ← [maxVarsVariable, onlyDiffVariable, markupVariable].mapM fun name => do
    return (name, ← IO.getEnv name)
  return fun name => (pairs.lookup name).join

/-- What surrounds the command: of the files, only the one that it is going to read. -/
def readWorld (argv : List String) : IO World := do
  let path := (Arguments.parse argv).toOption.bind Arguments.config
  let content ← match path.filter (· ≠ "") with
    | some path => readContent path
    | none => pure (.bytes [])
  return { environment := ← readEnvironment, files := fun _ => content, program := .missing }

end TruthTable

open TruthTable in
/-- **The program.** -/
def main (argv : List String) : IO UInt32 := do
  match Command.run (← readWorld argv) argv with
  | .error e =>
    IO.eprintln e.message
    return 1
  | .ok (.usage e) =>
    IO.eprintln usage
    IO.eprintln e.line
    return 2
  | .ok .help =>
    IO.println (usage ++ "\n\n" ++ help)
    return 0
  | .ok (.finished o) =>
    o.out.forM IO.println
    o.err.forM IO.eprintln
    return o.status.toUInt32
