import TruthTable.Increasing
import TruthTable.Json.Reader
import TruthTable.Markup
import TruthTable.Text.Utf8

/-!
# Settings — how a comparison is bounded and shown

Three settings govern a comparison: the greatest number of variables, whether only differing rows
are shown, and the markup of the expressions.  They come in **layers** — a file, the environment,
the command line — each of which sets some of them, and a later layer wins field by field.  What the
layers leave is a draft of arbitrary values, and only a valid draft is a record of settings.

* `Draft.validate` — the settings of a draft, or what is wrong with its first bad field.
* `Layer.ofFile`, `Layer.ofEnvironment` — the layers of a file and of the environment.
* `Settings.load` — the settings that the two leave on top of the defaults.
-/

namespace TruthTable

/-- **The settings of a comparison.** -/
structure Settings where
  /-- The greatest number of variables of a table. -/
  maxVars : Int := 20
  /-- Only the rows that differ are shown. -/
  onlyDiff : Bool := false
  /-- The name of the markup; a name that no markup has shows nothing. -/
  markup : String := "latex"
  deriving DecidableEq, Repr

/-- The settings are **valid**: there is room for a variable, and the markup exists. -/
def Settings.Valid (s : Settings) : Prop := 1 ≤ s.maxVars ∧ s.markup ∈ Markup.names

instance (s : Settings) : Decidable s.Valid := inferInstanceAs (Decidable (_ ∧ _))

/-! ## Refusals -/

/-- Why a file cannot be read as JSON. -/
inductive FileProblem where
  /-- The system refuses the file, with a code and a reason. -/
  | refused (code : Nat) (reason : String)
  | malformed (text : List Char) (problem : Json.Problem) (position : Nat)
  deriving DecidableEq, Repr

/-- The wording of a file's problem. -/
def FileProblem.message (path : String) : FileProblem → String
  | refused code reason => s!"[Errno {code}] {reason}: {Text.quote path}"
  | malformed text problem position => (Json.Fault.malformed problem position).message text

/-- **A refusal of settings.** -/
inductive ConfigError where
  | badFile (path : String) (problem : FileProblem)
  /-- The file holds something other than an object. -/
  | notObject
  /-- The file names settings that do not exist. -/
  | unknownKeys (keys : List (List Nat))
  | notInteger (name raw : String)
  | notBoolean (name raw : String)
  | badMaxVars (v : Json)
  | badOnlyDiff (v : Json)
  | badMarkup (v : Json)
  deriving Repr

/-- The wording of a refusal. -/
def ConfigError.message : ConfigError → String
  | badFile path problem => s!"invalid config file {path}: {problem.message path}"
  | notObject => "config file must hold a JSON object"
  | unknownKeys keys =>
    "unknown config keys: " ++
      ", ".intercalate (keys.map fun codes => String.ofList (codes.map Char.ofNat))
  | notInteger name raw => s!"{name} must be an integer, got {Text.quote raw}"
  | notBoolean name raw => s!"{name} must be a boolean, got {Text.quote raw}"
  | badMaxVars v => s!"max_vars must be a positive integer, got {v.display}"
  | badOnlyDiff v => s!"only_diff must be a boolean, got {v.display}"
  | badMarkup v =>
    let names := ", ".intercalate Markup.names
    s!"markup must be one of {names}, got {v.display}"

/-- **What stops the loading of settings**: a refusal, or a fault of the file that no refusal
covers. -/
inductive LoadFailure where
  | config (e : ConfigError)
  | undecodable (e : Text.Utf8.Error)
  | digits (e : Numeral.LimitError)
  | tooDeep
  /-- The path holds a null character. -/
  | nullInPath
  deriving Repr

/-- The wording of a failure. -/
def LoadFailure.message : LoadFailure → String
  | config e => e.message
  | undecodable e => e.message
  | digits e => e.message
  | tooDeep => ""
  | nullInPath => "embedded null byte"

/-! ## Drafts and layers -/

/-- A **draft of settings**: a value of any kind for each field. -/
structure Draft where
  maxVars : Json := .int 20
  onlyDiff : Json := .bool false
  markup : Json := .ofText "latex"
  deriving Repr

/-- The draft of a record. -/
def Settings.draft (s : Settings) : Draft :=
  { maxVars := .int s.maxVars, onlyDiff := .bool s.onlyDiff, markup := .ofText s.markup }

/-- The greatest number of variables is a positive integer. -/
def checkMaxVars : Json → Except ConfigError Int
  | .int n => if 1 ≤ n then .ok n else .error (.badMaxVars (.int n))
  | v => .error (.badMaxVars v)

/-- Whether only differing rows are shown is a truth value. -/
def checkOnlyDiff : Json → Except ConfigError Bool
  | .bool b => .ok b
  | v => .error (.badOnlyDiff v)

/-- The markup is the name of one. -/
def checkMarkup (v : Json) : Except ConfigError String :=
  match v.text? with
  | some name => if name ∈ Markup.names then .ok name else .error (.badMarkup v)
  | none => .error (.badMarkup v)

/-- **The settings of a draft**, whose fields are looked at in their order. -/
def Draft.validate (d : Draft) : Except ConfigError Settings := do
  let maxVars ← checkMaxVars d.maxVars
  let onlyDiff ← checkOnlyDiff d.onlyDiff
  let markup ← checkMarkup d.markup
  return { maxVars, onlyDiff, markup }

/-- A **layer** sets some of the fields. -/
structure Layer where
  maxVars : Option Json := none
  onlyDiff : Option Json := none
  markup : Option Json := none
  deriving Repr

/-- **A layer on top of a draft**: field by field, what the layer sets wins. -/
def Layer.over (l : Layer) (d : Draft) : Draft :=
  { maxVars := l.maxVars.getD d.maxVars
    onlyDiff := l.onlyDiff.getD d.onlyDiff
    markup := l.markup.getD d.markup }

/-- The names of the fields in a file. -/
def fieldNames : List String := ["max_vars", "only_diff", "markup"]

/-- The layer of the fields of an object; each field must be a setting. -/
def Layer.ofFields (fields : List (List Nat × Json)) : Except ConfigError Layer :=
  let known := fieldNames.map Text.codes
  match (fields.map Prod.fst).filter (· ∉ known) with
  | [] => .ok {
      maxVars := Json.field? fields "max_vars"
      onlyDiff := Json.field? fields "only_diff"
      markup := Json.field? fields "markup" }
  | unknown => .error (.unknownKeys (Increasing.ofList unknown))

/-! ## The file -/

/-- What **opening a file** gives: its bytes, or the code and the reason of a refusal. -/
inductive FileContent where
  | bytes (content : List UInt8)
  | refused (code : Nat) (reason : String)

/-- The layer of the text of a file, read within the limits. -/
def Layer.ofText (limits : Json.Limits) (path : String) (text : List Char) :
    Except LoadFailure Layer :=
  match Json.read limits text with
  | .ok (.object fields) => (Layer.ofFields fields).mapError .config
  | .ok _ => .error (.config .notObject)
  | .error (.malformed problem position) =>
    .error (.config (.badFile path (.malformed text problem position)))
  | .error (.digits e) => .error (.digits e)
  | .error .tooDeep => .error .tooDeep

/-- The layer of a file that is open. -/
def Layer.ofFile (limits : Json.Limits) (path : String) : FileContent → Except LoadFailure Layer
  | .refused code reason => .error (.config (.badFile path (.refused code reason)))
  | .bytes content => do
    let text ← (Text.Utf8.readText content).mapError .undecodable
    Layer.ofText limits path text

/-! ## The environment -/

/-- The variables of the environment. -/
abbrev Environment := String → Option String

/-- The variable that sets the greatest number of variables. -/
def maxVarsVariable : String := "BOOLCOMPARE_MAX_VARS"

/-- The variable that limits the rows shown. -/
def onlyDiffVariable : String := "BOOLCOMPARE_ONLY_DIFF"

/-- The variable that names the markup. -/
def markupVariable : String := "BOOLCOMPARE_MARKUP"

/-- **An integer** written in the environment variable of that name. -/
def readInt (name raw : String) : Except ConfigError Int :=
  match Numeral.readInt? raw.toList with
  | some n => .ok n
  | none => .error (.notInteger name raw)

/-- **A truth value** written in the environment variable of that name; nothing written is false. -/
def readBool (name raw : String) : Except ConfigError Bool :=
  let word := String.ofList ((Text.trim Text.isBlank raw.toList).map Char.toLower)
  if word ∈ ["1", "true", "yes", "on"] then .ok true
  else if word ∈ ["0", "false", "no", "off", ""] then .ok false
  else .error (.notBoolean name raw)

/-- **The layer of the environment.**  An empty variable sets nothing, except that it turns
`onlyDiff` off. -/
def Layer.ofEnvironment (env : Environment) : Except ConfigError Layer := do
  let maxVars ← ((env maxVarsVariable).filter (· ≠ "")).mapM (readInt maxVarsVariable)
  let onlyDiff ← (env onlyDiffVariable).mapM (readBool onlyDiffVariable)
  let markup := (env markupVariable).filter (· ≠ "")
  return {
    maxVars := maxVars.map .int
    onlyDiff := onlyDiff.map .bool
    markup := markup.map fun raw =>
      .ofText (String.ofList (Text.trim Text.isBlank raw.toList)) }

/-! ## Loading -/

/-- The layer of the file of a path; no path, or an empty one, sets nothing. -/
def Layer.ofPath (limits : Json.Limits) (path : Option String) (files : String → FileContent) :
    Except LoadFailure Layer :=
  match path.filter (· ≠ "") with
  | none => .ok {}
  | some p => if '\x00' ∈ p.toList then .error .nullInPath else Layer.ofFile limits p (files p)

/-- **The settings** that the file of a path, if there is one, and the environment leave on top of
the defaults.  The file is read within the limits. -/
def Settings.load (limits : Json.Limits) (path : Option String) (files : String → FileContent)
    (env : Environment) : Except LoadFailure Settings := do
  let file ← Layer.ofPath limits path files
  let environment ← (Layer.ofEnvironment env).mapError .config
  (environment.over (file.over {})).validate.mapError .config

/-! ## Validity -/

theorem le_of_checkMaxVars {v : Json} {n : Int} (h : checkMaxVars v = .ok n) : 1 ≤ n := by
  unfold checkMaxVars at h
  split at h
  · split at h <;> simp_all
  · simp at h

theorem mem_of_checkMarkup {v : Json} {name : String} (h : checkMarkup v = .ok name) :
    name ∈ Markup.names := by
  unfold checkMarkup at h
  split at h
  · split at h <;> simp_all
  · simp at h

/-- **A draft that passes gives valid settings.** -/
theorem Draft.valid_of_validate {d : Draft} {s : Settings} (h : d.validate = .ok s) : s.Valid := by
  unfold Draft.validate at h
  cases hn : checkMaxVars d.maxVars with
  | error e => simp [hn, bind, Except.bind] at h
  | ok n =>
    cases hb : checkOnlyDiff d.onlyDiff with
    | error e => simp [hn, hb, bind, Except.bind] at h
    | ok b =>
      cases hm : checkMarkup d.markup with
      | error e => simp [hn, hb, hm, bind, Except.bind] at h
      | ok name =>
        simp only [hn, hb, hm, bind, Except.bind, pure, Except.pure, Except.ok.injEq] at h
        subst h
        exact ⟨le_of_checkMaxVars hn, mem_of_checkMarkup hm⟩

end TruthTable
