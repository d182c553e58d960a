import TruthTable.Text.Blank
import TruthTable.Text.DecimalDigit

/-!
# Numeral — decimal numerals and the limit on their length

Numerals are read and written in base ten, and a numeral of more than `Numeral.maxDigits` digits is
neither read nor written.  Leading zeros count towards the limit; a sign and separators do not.

* `Numeral.value` — the number a run of digits denotes.
* `Numeral.readNat` — a run of digits as a number, within the limit.
* `Numeral.readInt?` — a signed numeral with blanks around it and single underscores between digits.
-/

namespace TruthTable.Numeral

open Text

/-- The **digit limit**: a longer numeral is neither read nor written. -/
def maxDigits : Nat := 4300

/-- A numeral past the digit limit. -/
inductive LimitError where
  /-- The numeral to be read has this many digits. -/
  | reading (digits : Nat)
  /-- The number to be written has too many digits. -/
  | writing
  deriving DecidableEq, Repr

/-- The wording of a numeral past the limit. -/
def LimitError.message : LimitError → String
  | reading digits =>
    s!"Exceeds the limit ({maxDigits} digits) for integer string conversion: " ++
      s!"value has {digits} digits; use sys.set_int_max_str_digits() to increase the limit"
  | writing =>
    s!"Exceeds the limit ({maxDigits} digits) for integer string conversion; " ++
      "use sys.set_int_max_str_digits() to increase the limit"

/-- **The number written by a run of digits**, the first one most significant. -/
def value (digits : List Nat) : Nat :=
  digits.foldl (fun n d => 10 * n + d) 0

@[simp] theorem value_nil : value [] = 0 := rfl

/-- One digit more at the right. -/
@[simp] theorem value_concat (ds : List Nat) (d : Nat) : value (ds ++ [d]) = 10 * value ds + d := by
  simp [value]

/-- The number written by a run of digits, if the run is within the limit. -/
def readNat (digits : List Nat) : Except LimitError Nat :=
  if digits.length ≤ maxDigits then .ok (value digits) else .error (.reading digits.length)

/-- A number can be written when it has at most `maxDigits` digits. -/
def writable (n : Nat) : Bool := n < Nat.pow 10 maxDigits

/-- Digits with single underscores between them.  `expectDigit` is set where an underscore or the
end may not stand: at the start and right after an underscore. -/
def separatedDigits? : (expectDigit : Bool) → List Char → Option (List Nat)
  | expectDigit, [] => if expectDigit then none else some []
  | expectDigit, c :: cs =>
    if c = '_' then
      if expectDigit then none else separatedDigits? true cs
    else match digitValue? c with
      | some d => (d :: ·) <$> separatedDigits? false cs
      | none => none

/-- What may stand around a numeral: the blanks, but not the four information separators. -/
def isPadding (c : Char) : Bool := isBlank c && !(28 ≤ c.toNat && c.toNat ≤ 31)

/-- **A signed numeral**: padding around it, one sign at most, and digits of any script with single
underscores between them.  A numeral past the digit limit is not one. -/
def readInt? (text : List Char) : Option Int :=
  match trim isPadding text with
  | '-' :: cs => (fun n : Nat => -(n : Int)) <$> unsigned? cs
  | '+' :: cs => (fun n : Nat => (n : Int)) <$> unsigned? cs
  | cs => (fun n : Nat => (n : Int)) <$> unsigned? cs
where
  /-- The digits after the sign. -/
  unsigned? (cs : List Char) : Option Nat := do
    let digits ← separatedDigits? true cs
    (readNat digits).toOption

end TruthTable.Numeral
