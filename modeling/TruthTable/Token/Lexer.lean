import TruthTable.Error

/-!
# Token/Lexer — from text to tokens

A text is first **normalized**: the typographic apostrophes become plain ones, every run of white
space becomes one space, and the two ends are trimmed.  The **scan** then reads single-character
tokens and names, a name as long as it goes.  Last, every unwritten `and` is put in between two
values that stand side by side.

* `normalize` — the text that the scan reads.
* `scan` — tokens, or the first character that starts none.
* `insertAnds` — the stream with the unwritten connectives in place.
* `tokenize` — the three in a row.
-/

namespace TruthTable

open Text

/-! ## Normalization -/

/-- The typographic apostrophes stand for the plain one. -/
def straighten (c : Char) : Char :=
  if c = '\u2018' ∨ c = '\u2019' ∨ c = '\u02bc' then '\'' else c

/-- **The text that the scan reads.** -/
def normalize (cs : List Char) : List Char :=
  trim isBlank (squeeze (cs.map straighten))

/-! ## Scanning -/

/-- A letter: a name starts with one. -/
def isLetter (c : Char) : Bool := ('a' ≤ c && c ≤ 'z') || ('A' ≤ c && c ≤ 'Z')

/-- A character that may follow in a name. -/
def isNameChar (c : Char) : Bool := isLetter c || ('0' ≤ c && c ≤ '9') || c == '_'

/-- The tokens of **one character**. -/
def Token.ofChar? : Char → Option Token
  | '(' => some (.mark .lparen)
  | ')' => some (.mark .rparen)
  | '\'' => some (.mark .prime)
  | '+' | '|' => some (.plain (.conn .or))
  | '*' | '·' | '.' => some (.plain (.conn .and))
  | '^' => some (.plain (.conn .xor))
  | '!' | '~' => some (.op .not true)
  | '1' => some (.const true)
  | '0' => some (.const false)
  | _ => none

theorem length_dropWhile_le (p : Char → Bool) (cs : List Char) :
    (cs.dropWhile p).length ≤ cs.length :=
  (List.dropWhile_suffix p).length_le

/-- The scan of what follows `pos` characters of the text. -/
def scanFrom (pos : Nat) : List Char → Except ExprError (List Token)
  | [] => .ok []
  | c :: cs =>
    if c = ' ' then scanFrom (pos + 1) cs
    else match Token.ofChar? c with
      | some t => (t :: ·) <$> scanFrom (pos + 1) cs
      | none =>
        if isLetter c then
          (.var (String.ofList (c :: cs.takeWhile isNameChar)) :: ·) <$>
            scanFrom (pos + 1 + (cs.takeWhile isNameChar).length) (cs.dropWhile isNameChar)
        else .error (.unexpectedChar (pos + 1) c)
termination_by cs => cs.length
decreasing_by all_goals
  have := length_dropWhile_le isNameChar cs
  simp only [List.length_cons]
  omega

/-- **The tokens of a text**, or the first character that starts none. -/
def scan (cs : List Char) : Except ExprError (List Token) := scanFrom 0 cs

/-! ## Unwritten connectives -/

/-- An `and` is left unwritten where a value ends and the next token starts another. -/
def Token.junction (t u : Token) : Bool := t.endsValue && u.startsValue

/-- **The stream with every unwritten `and` in place.** -/
def insertAnds : List Token → List Token
  | t :: u :: ts =>
    if t.junction u then t :: .plain (.conn .and) :: insertAnds (u :: ts)
    else t :: insertAnds (u :: ts)
  | ts => ts

@[simp] theorem insertAnds_nil : insertAnds [] = [] := by simp [insertAnds]

@[simp] theorem insertAnds_singleton (t : Token) : insertAnds [t] = [t] := by simp [insertAnds]

/-- The first token stays first. -/
theorem head?_insertAnds : ∀ ts : List Token, (insertAnds ts).head? = ts.head?
  | [] => by simp
  | [t] => by simp
  | t :: u :: ts => by
    unfold insertAnds
    split <;> rfl

/-- **The tokens of a text**, every `and` written out. -/
def tokenize (text : String) : Except ExprError (List Token) :=
  insertAnds <$> scan (normalize text.toList)

end TruthTable
