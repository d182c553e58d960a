import TruthTable.Json
import TruthTable.Numeral

/-!
# Json/Lexeme — the pieces of a JSON text

A JSON text is a row of signs, strings and plain values with blanks between them.  Each piece is
recorded with the position at which it starts, and a piece that starts like a value but is broken
is recorded with its fault; whether the fault counts is for the reader to say, since another kind of
piece may be wanted there.

* `Json.lexemes` — the pieces of a text, up to its end or the first piece that cannot be read on.
* `Json.readString` — the rest of a string after its opening quote.
* `Json.readNumber?` — the longest number at the start of a text.
-/

namespace TruthTable.Json

/-- What is **wrong with a JSON text** at a position. -/
inductive Problem where
  | expectingValue
  | expectingName
  | expectingColon
  | expectingComma
  | extraData
  | unterminatedString
  | controlCharacter
  | invalidEscape
  | invalidUnicodeEscape
  | byteOrderMark
  deriving DecidableEq, Repr

/-- The wording of a problem. -/
def Problem.message : Problem → String
  | expectingValue => "Expecting value"
  | expectingName => "Expecting property name enclosed in double quotes"
  | expectingColon => "Expecting ':' delimiter"
  | expectingComma => "Expecting ',' delimiter"
  | extraData => "Extra data"
  | unterminatedString => "Unterminated string starting at"
  | controlCharacter => "Invalid control character at"
  | invalidEscape => "Invalid \\escape"
  | invalidUnicodeEscape => "Invalid \\uXXXX escape"
  | byteOrderMark => "Unexpected UTF-8 BOM (decode using utf-8-sig)"

/-- Why a JSON text denotes no value. -/
inductive Fault where
  /-- The text breaks the grammar at the position, counted from zero. -/
  | malformed (problem : Problem) (position : Nat)
  /-- An integer is past the digit limit. -/
  | digits (e : Numeral.LimitError)
  /-- The value nests too deep. -/
  | tooDeep
  deriving DecidableEq, Repr

/-- The signs of JSON. -/
inductive Sign where
  | lbrace
  | rbrace
  | lbracket
  | rbracket
  | comma
  | colon
  deriving DecidableEq, Repr

/-- **A piece of a JSON text.** -/
inductive Lexeme where
  | sign (s : Sign)
  | string (codes : List Nat)
  | badString (fault : Fault)
  /-- A number or a word. -/
  | plain (v : Json)
  | badNumber (fault : Fault)
  /-- A character that starts no piece. -/
  | unknown
  | eof
  deriving Repr

/-! ## Strings -/

/-- The value of a hexadecimal digit. -/
def hexDigit? (c : Char) : Option Nat :=
  if '0' ≤ c ∧ c ≤ '9' then some (c.toNat - '0'.toNat)
  else if 'a' ≤ c ∧ c ≤ 'f' then some (c.toNat - 'a'.toNat + 10)
  else if 'A' ≤ c ∧ c ≤ 'F' then some (c.toNat - 'A'.toNat + 10)
  else none

/-- The value of four hexadecimal digits. -/
def hexQuad? (a b c d : Char) : Option Nat := do
  return ((← hexDigit? a) * 16 + (← hexDigit? b)) * 256 + (← hexDigit? c) * 16 + (← hexDigit? d)

/-- The character of an escape of one letter. -/
def escaped? : Char → Option Char
  | '"' => some '"'
  | '\\' => some '\\'
  | '/' => some '/'
  | 'b' => some '\x08'
  | 'f' => some '\x0c'
  | 'n' => some '\n'
  | 'r' => some '\r'
  | 't' => some '\t'
  | _ => none

/-- The first half of a surrogate pair. -/
def isHighSurrogate (n : Nat) : Bool := 0xD800 ≤ n && n < 0xDC00

/-- The second half of a surrogate pair. -/
def isLowSurrogate (n : Nat) : Bool := 0xDC00 ≤ n && n < 0xE000

/-- The code unit of a numbered escape `\uXXXX` that is the second half of a surrogate pair.  The
escape must be whole and something must follow it. -/
def lowEscape? (pos : Nat) : List Char → Except Fault (Option Nat)
  | '\\' :: 'u' :: a :: b :: c :: d :: _ :: _ =>
    match hexQuad? a b c d with
    | none => .error (.malformed .invalidUnicodeEscape (pos + 1))
    | some n => .ok (if isLowSurrogate n then some n else none)
  | _ => .ok none

/-- **An escape** after its backslash, which stands at `pos` in the string that starts at `start`:
the code point and the number of characters.  Something must follow the four digits of a numbered
escape, and two of them that form a surrogate pair are one code point. -/
def readEscape (start pos : Nat) : List Char → Except Fault (Nat × Nat)
  | [] => .error (.malformed .unterminatedString start)
  | 'u' :: a :: b :: c :: d :: x :: rest =>
    match hexQuad? a b c d with
    | none => .error (.malformed .invalidUnicodeEscape (pos + 1))
    | some high =>
      if isHighSurrogate high then
        match lowEscape? (pos + 6) (x :: rest) with
        | .error e => .error e
        | .ok (some low) => .ok (0x10000 + (high - 0xD800) * 0x400 + (low - 0xDC00), 11)
        | .ok none => .ok (high, 5)
      else .ok (high, 5)
  | 'u' :: _ => .error (.malformed .invalidUnicodeEscape (pos + 1))
  | c :: _ =>
    match escaped? c with
    | some e => .ok (e.toNat, 1)
    | none => .error (.malformed .invalidEscape pos)

/-- **The rest of a string** after its opening quote, which stands at `start`; what is left of the
text begins at `pos`, and its first `skip` characters belong to an escape that is read already.  The
code points so far are in `read`, latest first.  The answer is the code points and the position
after the closing quote. -/
def readString (start : Nat) : (read : List Nat) → (pos skip : Nat) → List Char →
    Except Fault (List Nat × Nat)
  | _, _, _, [] => .error (.malformed .unterminatedString start)
  | read, pos, skip + 1, _ :: cs => readString start read (pos + 1) skip cs
  | read, pos, 0, c :: cs =>
    if c = '"' then .ok (read.reverse, pos + 1)
    else if c = '\\' then
      match readEscape start pos cs with
      | .ok (n, length) => readString start (n :: read) (pos + 1) length cs
      | .error e => .error e
    else if c.toNat < 0x20 then .error (.malformed .controlCharacter pos)
    else readString start (c.toNat :: read) (pos + 1) 0 cs

/-! ## Numbers and words -/

/-- A digit of a JSON number. -/
def isDigit (c : Char) : Bool := '0' ≤ c && c ≤ '9'

/-- The values of a row of digits. -/
def digitValues (cs : List Char) : List Nat := cs.map fun c => c.toNat - '0'.toNat

/-- The parts of a **number as it is written**. -/
structure Written where
  negative : Bool
  whole : List Char
  fraction : List Char
  /-- The sign and the digits of the exponent, if there is one. -/
  exponent : Option (Bool × List Char)
  /-- The number of characters. -/
  length : Nat

/-- The whole part: a zero, or digits that do not start with one. -/
def takeWhole : List Char → List Char
  | '0' :: _ => ['0']
  | cs => cs.takeWhile isDigit

/-- The digits of a fraction; the point counts only if a digit follows. -/
def takeFraction : List Char → List Char
  | '.' :: cs => cs.takeWhile isDigit
  | _ => []

/-- The sign and digits of an exponent, and the characters it takes; the letter counts only if a
digit follows, with or without a sign. -/
def takeExponent : List Char → Option (Bool × List Char × Nat)
  | e :: cs =>
    if e = 'e' ∨ e = 'E' then
      let (negative, digits, signs) := match cs with
        | '-' :: ds => (true, ds.takeWhile isDigit, 2)
        | '+' :: ds => (false, ds.takeWhile isDigit, 2)
        | ds => (false, ds.takeWhile isDigit, 1)
      if digits.isEmpty then none else some (negative, digits, digits.length + signs)
    else none
  | [] => none

/-- **The longest number at the start of a text.** -/
def readNumber? (text : List Char) : Option Written :=
  let (negative, cs) := match text with
    | '-' :: cs => (true, cs)
    | cs => (false, cs)
  let whole := takeWhole cs
  if whole.isEmpty then none
  else
    let cs := cs.drop whole.length
    let fraction := takeFraction cs
    let pointed := if fraction.isEmpty then 0 else fraction.length + 1
    let exponent := takeExponent (cs.drop pointed)
    some {
      negative, whole, fraction
      exponent := exponent.map fun (negative, digits, _) => (negative, digits)
      length := negative.toNat + whole.length + pointed + (exponent.map (·.2.2)).getD 0 }

/-- The value of a number: **an integer is exact, all else is a double**. -/
def Written.value (maxDigits : Nat) (w : Written) : Except Fault Json :=
  if w.fraction.isEmpty && w.exponent.isNone then
    if maxDigits < w.whole.length then .error (.digits (.reading w.whole.length))
    else
      let n : Int := Numeral.value (digitValues w.whole)
      .ok (.int (if w.negative then -n else n))
  else
    let power : Int := match w.exponent with
      | some (negative, digits) =>
        let n : Int := Numeral.value (digitValues digits)
        if negative then -n else n
      | none => 0
    .ok (.float (.ofDecimal w.negative (Numeral.value (digitValues (w.whole ++ w.fraction)))
      (power - w.fraction.length)))

/-- The words of JSON and the values they stand for. -/
def words : List (String × Json) :=
  [("null", .null), ("true", .bool true), ("false", .bool false), ("NaN", .float .nan),
    ("Infinity", .float (.infinite false)), ("-Infinity", .float (.infinite true))]

/-! ## Pieces -/

/-- A blank between pieces. -/
def isSpace (c : Char) : Bool := c = ' ' || c = '\t' || c = '\n' || c = '\r'

/-- The sign that a character is. -/
def Sign.ofChar? : Char → Option Sign
  | '\x7b' => some .lbrace
  | '\x7d' => some .rbrace
  | '[' => some .lbracket
  | ']' => some .rbracket
  | ',' => some .comma
  | ':' => some .colon
  | _ => none

/-- **The piece at the start of a text** that begins at `pos` with no blank, and the characters it
takes. -/
def lexeme (maxDigits pos : Nat) (c : Char) (cs : List Char) : Lexeme × Nat :=
  match Sign.ofChar? c with
  | some s => (.sign s, 1)
  | none =>
    if c = '"' then
      match readString pos [] (pos + 1) 0 cs with
      | .ok (codes, after) => (.string codes, after - pos)
      | .error e => (.badString e, 1)
    else
      match words.find? fun (w, _) => w.toList.isPrefixOf (c :: cs) with
      | some (w, v) => (.plain v, w.length)
      | none =>
        match readNumber? (c :: cs) with
        | none => (.unknown, 1)
        | some w =>
          match w.value maxDigits with
          | .ok v => (.plain v, w.length)
          | .error e => (.badNumber e, w.length)

/-- The reading goes on after the piece. -/
def Lexeme.goesOn : Lexeme → Bool
  | badString _ | unknown | eof => false
  | _ => true

/-- The pieces of what is left of a text at `pos`, whose first `skip` characters belong to a piece
that is read already. -/
def lexemesFrom (maxDigits : Nat) : (pos skip : Nat) → List Char → List (Nat × Lexeme)
  | pos, _, [] => [(pos, .eof)]
  | pos, skip + 1, _ :: cs => lexemesFrom maxDigits (pos + 1) skip cs
  | pos, 0, c :: cs =>
    if isSpace c then lexemesFrom maxDigits (pos + 1) 0 cs
    else
      let (piece, length) := lexeme maxDigits pos c cs
      (pos, piece) ::
        if piece.goesOn then lexemesFrom maxDigits (pos + 1) (length - 1) cs else []

/-- **The pieces of a text with their positions**, up to the end or the first piece that cannot be
read on. -/
def lexemes (maxDigits : Nat) (text : List Char) : List (Nat × Lexeme) :=
  lexemesFrom maxDigits 0 0 text

end TruthTable.Json
