import TruthTable.Text.Printable

/-!
# Text/Quoted — a text as messages quote it

A quotation shows where a text begins and ends and which characters it holds.  It stands in single
quotes, or in double quotes when the text holds a single one and no double one; a backslash, the
quote in use, and what is not printable are escaped.

* `quoteCodes` — the quotation of a list of code points.
* `quote` — the quotation of a text.
-/

namespace TruthTable.Text

/-- The number in lower-case hexadecimal, with zeros in front up to the width. -/
def hex (width n : Nat) : String :=
  let digits := Nat.toDigits 16 n
  String.ofList (List.replicate (width - digits.length) '0' ++ digits)

/-- One code point of a quotation whose delimiter is `mark`. -/
def escapeCode (mark : Char) (n : Nat) : String :=
  if n = '\\'.toNat then "\\\\"
  else if n = mark.toNat then String.ofList ['\\', mark]
  else if n = '\n'.toNat then "\\n"
  else if n = '\r'.toNat then "\\r"
  else if n = '\t'.toNat then "\\t"
  else if isPrintable n then String.singleton (Char.ofNat n)
  else if n < 0x100 then "\\x" ++ hex 2 n
  else if n < 0x10000 then "\\u" ++ hex 4 n
  else "\\U" ++ hex 8 n

/-- The **delimiter of a quotation**: single, unless only a double one spares an escape. -/
def delimiter (codes : List Nat) : Char :=
  if codes.contains '\''.toNat && !codes.contains '"'.toNat then '"' else '\''

/-- **The quotation of a list of code points.** -/
def quoteCodes (codes : List Nat) : String :=
  let mark := delimiter codes
  String.singleton mark ++ String.join (codes.map (escapeCode mark)) ++ String.singleton mark

/-- The code points of a text. -/
def codes (text : String) : List Nat := text.toList.map Char.toNat

/-- **The quotation of a text.** -/
def quote (text : String) : String := quoteCodes (codes text)

/-- The quotations of a list of texts, in brackets. -/
def quoteList (texts : List String) : String :=
  "[" ++ ", ".intercalate (texts.map quote) ++ "]"

end TruthTable.Text
