import TruthTable.Binary64
import TruthTable.Text.Quoted

/-!
# Json — JSON values

A JSON text denotes a value: nothing, a truth value, a number, a string, a list, or an object.  An
integer is exact and a number with a fraction or an exponent is a double.  A string is a list of
code points, since an escape may name a lone surrogate.

* `Json.truthy` — whether a value counts as true.
* `Json.display` — the value as messages show it.
* `Json.field?` — the field of an object.
-/

namespace TruthTable

/-- A **JSON value**; an object keeps its fields in the order in which they were first named. -/
inductive Json where
  | null
  | bool (b : Bool)
  | int (n : Int)
  | float (x : Binary64)
  | string (codes : List Nat)
  | array (items : List Json)
  | object (fields : List (List Nat × Json))
  deriving Repr

namespace Json

/-- The value of a text. -/
def ofText (s : String) : Json := string (Text.codes s)

/-- The text of a string value, unless it holds a surrogate. -/
def text? : Json → Option String
  | string codes =>
    if codes.all fun n => n.isValidChar then some (String.ofList (codes.map Char.ofNat)) else none
  | _ => none

/-- **The value counts as true**: it is neither nothing, nor false, nor zero, nor empty. -/
def truthy : Json → Bool
  | null => false
  | bool b => b
  | int n => n != 0
  | float x => !x.isZero
  | string codes => !codes.isEmpty
  | array items => !items.isEmpty
  | object fields => !fields.isEmpty

mutual

/-- **The value as messages show it.** -/
def display : Json → String
  | null => "None"
  | bool b => if b then "True" else "False"
  | int n => toString n
  | float x => x.display
  | string codes => Text.quoteCodes codes
  | array items => "[" ++ ", ".intercalate (displayItems items) ++ "]"
  | object fields => "\x7b" ++ ", ".intercalate (displayFields fields) ++ "\x7d"

/-- The items of a list. -/
def displayItems : List Json → List String
  | [] => []
  | v :: vs => v.display :: displayItems vs

/-- The fields of an object. -/
def displayFields : List (List Nat × Json) → List String
  | [] => []
  | (k, v) :: rest => (Text.quoteCodes k ++ ": " ++ v.display) :: displayFields rest

end

/-- The field of that name. -/
def field? (fields : List (List Nat × Json)) (name : String) : Option Json :=
  fields.lookup (Text.codes name)

/-- A field set to a value: in its old place if the name is known, at the end otherwise. -/
def setField (key : List Nat) (v : Json) : List (List Nat × Json) → List (List Nat × Json)
  | [] => [(key, v)]
  | (k, w) :: rest => if k = key then (key, v) :: rest else (k, w) :: setField key v rest

/-- **The object of fields as they were written**: of two fields of one name the later value counts,
in the place of the earlier. -/
def ofFields (written : List (List Nat × Json)) : Json :=
  object (written.foldl (fun fields (k, v) => setField k v fields) [])

end Json

end TruthTable
