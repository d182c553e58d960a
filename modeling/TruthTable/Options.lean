import TruthTable.Settings

/-!
# Options — the command line

The command takes two expressions and some options.  An argument that starts with a dash is an
option, unless it is a dash alone, looks like a negative number, or holds a space; after a double
dash there are no options.  A long option may be cut short as long as it stays unambiguous, short
ones may be run together, and a value may follow its option in the same argument or in the next.
A double dash in the place of a value blots the value out.

* `Opt` — the options.
* `classify` — what a single argument is.
* `Arguments.parse` — the arguments of a command line, or why it stops.
-/

namespace TruthTable

/-- The **options** of the command. -/
inductive Opt where
  | help
  | diff
  | maxVars
  | config
  | markup
  | minterms
  | dot
  | verbose
  deriving DecidableEq, Repr

namespace Opt

/-- The spellings of an option. -/
def names : Opt → List String
  | help => ["-h", "--help"]
  | diff => ["-d", "--diff"]
  | maxVars => ["-n", "--max-vars"]
  | config => ["-c", "--config"]
  | markup => ["-m", "--markup"]
  | minterms => ["--minterms"]
  | dot => ["--dot"]
  | verbose => ["-v", "--verbose"]

/-- The option takes a value. -/
def takesValue : Opt → Bool
  | maxVars | config | markup | dot => true
  | help | diff | minterms | verbose => false

/-- The options in the order of their listing. -/
def all : List Opt := [help, diff, maxVars, config, markup, minterms, dot, verbose]

/-- All spellings with their options. -/
def spellings : List (String × Opt) := all.flatMap fun o => o.names.map (·, o)

/-- The option of a spelling. -/
def ofName? (name : String) : Option Opt := spellings.lookup name

/-- The option as messages name it. -/
def label (o : Opt) : String := "/".intercalate o.names

end Opt

/-! ## Refusals -/

/-- **Why a command line is refused.** -/
inductive UsageError where
  | ambiguous (argument : String) (candidates : List String)
  /-- A value is given to an option that takes none. -/
  | needlessValue (o : Opt) (value : String)
  | missingValue (o : Opt)
  | notInteger (o : Opt) (value : String)
  | notChoice (o : Opt) (value : String)
  | missingExpressions (names : List String)
  | unrecognized (arguments : List String)
  deriving DecidableEq, Repr

/-- The wording of a refusal. -/
def UsageError.message : UsageError → String
  | ambiguous argument candidates =>
    s!"ambiguous option: {argument} could match " ++ ", ".intercalate candidates
  | needlessValue o value =>
    s!"argument {o.label}: ignored explicit argument {Text.quote value}"
  | missingValue o => s!"argument {o.label}: expected one argument"
  | notInteger o value => s!"argument {o.label}: invalid int value: {Text.quote value}"
  | notChoice o value =>
    s!"argument {o.label}: invalid choice: {Text.quote value} (choose from " ++
      ", ".intercalate (Markup.names.map Text.quote) ++ ")"
  | missingExpressions names =>
    "the following arguments are required: " ++ ", ".intercalate names
  | unrecognized arguments => "unrecognized arguments: " ++ " ".intercalate arguments

/-- The refusal as the command reports it. -/
def UsageError.line (e : UsageError) : String := "boolcompare: error: " ++ e.message

/-! ## Single arguments -/

/-- **What an argument is.** -/
inductive Argument where
  /-- An expression, or the value of the option before it. -/
  | plain (text : String)
  /-- The double dash after which there are no options. -/
  | separator
  /-- An option by the spelling `name`, and the text after it in the same argument, if there is any:
  what follows an equals sign, or what is run on to a short option. -/
  | option (o : Opt) (name : String) (tail : Option String)
  /-- An option that does not exist. -/
  | unknown (text : String)
  deriving DecidableEq, Repr

/-- The part before the first equals sign, and what stands after it. -/
def splitEquals (text : String) : String × Option String :=
  let cs := text.toList
  match cs.dropWhile (· ≠ '=') with
  | [] => (text, none)
  | _ :: value => (String.ofList (cs.takeWhile (· ≠ '=')), some (String.ofList value))

/-- **The options that an argument may mean** when it is no full spelling: a long option cut short,
or a short one with more text run on. -/
def candidates (text : String) : List (Opt × String × Option String) :=
  if text.startsWith "--" then
    let (stem, tail) := splitEquals text
    Opt.spellings.filterMap fun (name, o) =>
      if name.startsWith stem then some (o, name, tail) else none
  else
    let short := text.toList.take 2
    Opt.spellings.filterMap fun (name, o) =>
      if name.toList = short then some (o, name, some (String.ofList (text.toList.drop 2)))
      else if name.startsWith text then some (o, name, none)
      else none

/-- The argument looks like a **negative number**: a dash, digits, and at most one point with a
digit after it.  A newline at the end is overlooked. -/
def looksNegative (text : String) : Bool :=
  let isDigit := Text.isDigit
  match text.toList with
  | '-' :: cs =>
    let cs := if cs.getLast? = some '\n' then cs.dropLast else cs
    match cs.dropWhile isDigit with
    | [] => !cs.isEmpty
    | '.' :: fraction => !fraction.isEmpty && fraction.all isDigit
    | _ => false
  | _ => false

/-- **What a single argument is**, before any double dash. -/
def classify (text : String) : Except UsageError Argument :=
  if !text.startsWith "-" then .ok (.plain text)
  else match Opt.ofName? text with
    | some o => .ok (.option o text none)
    | none =>
      if text = "-" then .ok (.plain text)
      else match splitEquals text, Opt.ofName? (splitEquals text).1 with
        | (name, some value), some o => .ok (.option o name (some value))
        | _, _ => match candidates text with
          | [(o, name, tail)] => .ok (.option o name tail)
          | [] =>
            if looksNegative text || text.contains ' ' then .ok (.plain text)
            else .ok (.unknown text)
          | many => .error (.ambiguous text (many.map (·.2.1)))

/-- What each argument is; after a double dash all are plain. -/
def classifyAll : List String → Except UsageError (List Argument)
  | [] => .ok []
  | text :: rest =>
    if text = "--" then .ok (.separator :: rest.map .plain)
    else do
      let a ← classify text
      let as ← classifyAll rest
      return a :: as

/-! ## Options that are run together -/

/-- The options that one argument spells. -/
structure Spelled where
  /-- Options without a value, in order. -/
  flags : List Opt := []
  last : Opt
  /-- The value that the argument gives to the last option. -/
  value : Option String := none

/-- One more option without a value in front. -/
def Spelled.after (o : Opt) (s : Spelled) : Spelled := { s with flags := o :: s.flags }

/-- **The options that an argument spells** when `text` stands after the option `o`: its value, or,
after a short option that takes none, more short options.  Text that is neither is refused under the
name of the option before it. -/
def spelled (o : Opt) (short : Bool) : (text : List Char) → Except UsageError Spelled
  | [] => if o.takesValue then .ok { last := o, value := some "" } else .error (.needlessValue o "")
  | c :: rest =>
    let text := String.ofList (c :: rest)
    if o.takesValue then .ok { last := o, value := some text }
    else match (if short then Opt.ofName? (String.ofList ['-', c]) else none) with
      | none => .error (.needlessValue o text)
      | some next =>
        if rest.isEmpty then .ok { flags := [o], last := next }
        else Spelled.after o <$> spelled next short rest

/-! ## The command line -/

/-- **The arguments of the command.** -/
structure Arguments where
  /-- The expressions; one for which only a second double dash is given has no text. -/
  expressions : List (Option String) := []
  /-- The settings that the options set. -/
  layer : Layer := {}
  config : Option String := none
  minterms : Bool := false
  dot : Option String := none
  verbose : Bool := false
  deriving Repr

/-- Why there are no arguments to act on. -/
inductive Stop where
  | usage (e : UsageError)
  /-- Help is asked for. -/
  | help
  deriving DecidableEq, Repr

namespace Arguments

/-- An option that takes no value. -/
def flag (a : Arguments) : Opt → Except Stop Arguments
  | .help => .error .help
  | .diff => .ok { a with layer := { a.layer with onlyDiff := some (.bool true) } }
  | .minterms => .ok { a with minterms := true }
  | .verbose => .ok { a with verbose := true }
  | _ => .ok a

/-- **An option and its value.** -/
def set (a : Arguments) (value : String) : Opt → Except Stop Arguments
  | .maxVars => match Numeral.readInt? value.toList with
    | some n => .ok { a with layer := { a.layer with maxVars := some (.int n) } }
    | none => .error (.usage (.notInteger .maxVars value))
  | .markup =>
    if value ∈ Markup.names then
      .ok { a with layer := { a.layer with markup := some (.ofText value) } }
    else .error (.usage (.notChoice .markup value))
  | .config => .ok { a with config := some value }
  | .dot => .ok { a with dot := some value }
  | _ => .ok a

/-- **An option whose value is blotted out**: a double dash in the place of a value leaves an empty
list.  That is a path of no file and of no drawing, and it is no valid setting. -/
def blot (a : Arguments) : Opt → Arguments
  | .maxVars => { a with layer := { a.layer with maxVars := some (.array []) } }
  | .markup => { a with layer := { a.layer with markup := some (.array []) } }
  | .config => { a with config := none }
  | .dot => { a with dot := none }
  | _ => a

/-- The number of expressions that the command takes. -/
def arity : Nat := 2

/-- The **state of the walk** along the arguments. -/
structure Walk where
  arguments : Arguments := {}
  /-- Arguments that nothing takes. -/
  extras : List String := []
  /-- The argument before was taken as an expression. -/
  taken : Bool := false
  /-- The argument before is a double dash that goes with the next expression. -/
  opened : Bool := false

/-- An expression, if one is still wanted. -/
def Walk.plain (w : Walk) (text : String) : Walk :=
  let a := w.arguments
  if a.expressions.length < arity then
    let value := if text = "--" && !w.opened then none else some text
    { w with
      arguments := { a with expressions := a.expressions ++ [value] }
      taken := true
      opened := false }
  else { w with extras := w.extras ++ [text], taken := false }

/-- The double dash: it goes with an expression before or after it. -/
def Walk.separator (w : Walk) (isLast : Bool) : Walk :=
  if w.taken then w
  else if w.arguments.expressions.length < arity && !isLast then { w with opened := true }
  else { w with extras := w.extras ++ ["--"] }

/-- The options of an argument that is the option `name` with its tail. -/
def spelledBy (o : Opt) (name : String) : Option String → Except UsageError Spelled
  | none => .ok { last := o }
  | some text => spelled o (!name.startsWith "--") text.toList

/-- The options of an argument take effect, the last one with its value if it takes one. -/
def apply (a : Arguments) (s : Spelled) (value : Option String) : Except Stop Arguments := do
  let a ← s.flags.foldlM flag a
  match value with
  | some v => if v = "--" then return a.blot s.last else a.set v s.last
  | none => a.flag s.last

/-- The walk goes on after options. -/
def Walk.optionsTaken (w : Walk) (a : Arguments) : Walk := { w with arguments := a, taken := false }

/-- **Walks along the arguments.**  Flags act at once, so help stops before what comes later. -/
def walk (w : Walk) : List Argument → Except Stop Walk
  | [] => .ok w
  | .plain text :: rest => walk (w.plain text) rest
  | .separator :: rest => walk (w.separator rest.isEmpty) rest
  | .unknown text :: rest => walk { w with extras := w.extras ++ [text], taken := false } rest
  | .option o name tail :: rest =>
    match spelledBy o name tail with
    | .error e => .error (.usage e)
    | .ok s =>
      if s.last.takesValue && s.value.isNone then
        match rest with
        | .plain value :: rest => match w.arguments.apply s (some value) with
          | .error e => .error e
          | .ok a => walk (w.optionsTaken a) rest
        | _ => .error (.usage (.missingValue s.last))
      else match w.arguments.apply s s.value with
        | .error e => .error e
        | .ok a => walk (w.optionsTaken a) rest

/-- The names of the expressions. -/
def expressionNames : List String := ["expr1", "expr2"]

/-- **The arguments of a command line**, or why it stops. -/
def parse (argv : List String) : Except Stop Arguments := do
  let classes ← (classifyAll argv).mapError .usage
  let w ← walk {} classes
  match expressionNames.drop w.arguments.expressions.length, w.extras with
  | [], [] => .ok w.arguments
  | [], extras => .error (.usage (.unrecognized extras))
  | missing, _ => .error (.usage (.missingExpressions missing))

end Arguments

end TruthTable
