import TruthTable.Json.Lexeme

/-!
# Json/Reader — from a JSON text to its value

The reader goes through the pieces of the text once.  Lists and objects that are still open wait in
a stack of frames, and at each moment the reader knows what may come next; the first piece that may
not come is the fault of the text.

* `Json.read` — the value of a text, or its fault.
* `Fault.message` — the wording of a fault, with the line and the column of its position.
-/

namespace TruthTable.Json

/-- **How much** the reader takes on. -/
structure Limits where
  /-- The greatest number of digits of an integer. -/
  digits : Nat
  /-- The greatest number of lists and objects inside one another. -/
  depth : Nat

/-- The digit limit, and a depth that leaves room for a thousand calls within one another. -/
def Limits.standard : Limits := ⟨Numeral.maxDigits, 992⟩

/-- A list or an object that is **still open**, its items or fields latest first. -/
inductive Frame where
  | array (items : List Json)
  | object (fields : List (List Nat × Json))
  /-- An object of which the name of the next field is read. -/
  | field (fields : List (List Nat × Json)) (key : List Nat)

/-- **What may come next.** -/
inductive Await where
  | value
  /-- A value, or the end of a list that is still empty. -/
  | valueOrEnd
  | name
  /-- A field, or the end of an object that is still empty. -/
  | nameOrEnd
  | colon
  /-- A comma, or the end of the innermost frame. -/
  | more
  /-- Nothing but the end of the text, whose value is complete. -/
  | finish (v : Json)

/-- The **state of the reader**: what may come next, and the open frames, innermost first. -/
structure State where
  await : Await
  frames : List Frame

namespace State

/-- A value is complete: it goes into the innermost frame, or it is the value of the text. -/
def complete (v : Json) : List Frame → State
  | .array items :: fs => ⟨.more, .array (v :: items) :: fs⟩
  | .field fields key :: fs => ⟨.more, .object ((key, v) :: fields) :: fs⟩
  | fs => ⟨.finish v, fs⟩

/-- The piece that a value starts with. -/
def value (limits : Limits) (frames : List Frame) (pos : Nat) : Lexeme → Except Fault State
  | .string codes => .ok (complete (.string codes) frames)
  | .plain v => .ok (complete v frames)
  | .badString e | .badNumber e => .error e
  | .sign .lbracket => opened .valueOrEnd (.array [])
  | .sign .lbrace => opened .nameOrEnd (.object [])
  | _ => .error (.malformed .expectingValue pos)
where
  /-- One more frame, unless the limit is reached. -/
  opened (await : Await) (frame : Frame) : Except Fault State :=
    if limits.depth ≤ frames.length then .error .tooDeep else .ok ⟨await, frame :: frames⟩

/-- The piece that the name of a field is. -/
def name (frames : List Frame) (pos : Nat) (piece : Lexeme) : Except Fault State :=
  match frames, piece with
  | .object fields :: fs, .string codes => .ok ⟨.colon, .field fields codes :: fs⟩
  | _, .badString e => .error e
  | _, _ => .error (.malformed .expectingName pos)

/-- **One piece.**  A fault stands where the first piece stands that may not come. -/
def step (limits : Limits) (s : State) (pos : Nat) (piece : Lexeme) : Except Fault State :=
  match s.await, s.frames, piece with
  | .valueOrEnd, .array _ :: fs, .sign .rbracket => .ok (complete (.array []) fs)
  | .nameOrEnd, .object _ :: fs, .sign .rbrace => .ok (complete (ofFields []) fs)
  | .value, fs, piece | .valueOrEnd, fs, piece => value limits fs pos piece
  | .name, fs, piece | .nameOrEnd, fs, piece => name fs pos piece
  | .colon, fs, .sign .colon => .ok ⟨.value, fs⟩
  | .colon, _, _ => .error (.malformed .expectingColon pos)
  | .more, .array items :: fs, .sign .rbracket => .ok (complete (.array items.reverse) fs)
  | .more, .object fields :: fs, .sign .rbrace => .ok (complete (ofFields fields.reverse) fs)
  | .more, .array items :: fs, .sign .comma => .ok ⟨.value, .array items :: fs⟩
  | .more, .object fields :: fs, .sign .comma => .ok ⟨.name, .object fields :: fs⟩
  | .more, _, _ => .error (.malformed .expectingComma pos)
  | .finish v, fs, .eof => .ok ⟨.finish v, fs⟩
  | .finish _, _, _ => .error (.malformed .extraData pos)

end State

/-- **The value of a JSON text.**  A byte order mark in front is refused by name. -/
def read (limits : Limits) (text : List Char) : Except Fault Json :=
  if text.head? = some '\ufeff' then .error (.malformed .byteOrderMark 0)
  else do
    let s ← (lexemes limits.digits text).foldlM (fun s (pos, piece) => s.step limits pos piece)
      (⟨.value, []⟩ : State)
    match s.await with
    | .finish v => return v
    | _ => throw (.malformed .expectingValue text.length)

/-! ## Wording -/

/-- The line and the column of a position, counted from one. -/
def place (text : List Char) (position : Nat) : Nat × Nat :=
  let before := text.take position
  (before.count '\n' + 1, (before.reverse.takeWhile (· ≠ '\n')).length + 1)

/-- **The wording of a fault** of a text. -/
def Fault.message (text : List Char) : Fault → String
  | malformed problem position =>
    let (line, column) := place text position
    s!"{problem.message}: line {line} column {column} (char {position})"
  | digits e => e.message
  | tooDeep => ""

end TruthTable.Json
