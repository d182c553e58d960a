/-!
# Binary64 — decimal numbers rounded to double precision

A JSON number with a fraction or an exponent is held in double precision: fifty-three bits of
significand and exponents from `-1074` to `971`.  Rounding and printing work on exact natural
numbers.

* `Binary64.ofDecimal` — the nearest double, a tie going to the even significand.
* `Binary64.display` — the fewest digits that read back as the same double, of those the nearest;
  positional when the point falls near the digits, with an exponent otherwise.
-/

namespace TruthTable

/-- A **double**: a signed significand times a power of two, or one of the special values. -/
inductive Binary64 where
  | finite (negative : Bool) (significand : Nat) (exponent : Int)
  | infinite (negative : Bool)
  | nan
  deriving DecidableEq, Repr

namespace Binary64

/-- The number of bits of a significand. -/
def precision : Nat := 53

/-- The least exponent of a double. -/
def minExponent : Int := -1074

/-- The greatest exponent of a double. -/
def maxExponent : Int := 971

/-- The quotient rounded to the nearest integer, **ties to even**. -/
def roundDiv (num den : Nat) : Nat :=
  let q := num / den
  let r := num % den
  if 2 * r < den then q
  else if den < 2 * r then q + 1
  else q + q % 2

/-- A fraction with `base ^ k` multiplied in, whatever the sign of `k`. -/
def scale (num den : Nat) (base : Nat) (k : Int) : Nat × Nat :=
  if k < 0 then (num, den * base.pow k.natAbs) else (num * base.pow k.natAbs, den)

/-- The number of decimal digits. -/
def digitCount (n : Nat) : Nat := (Nat.toDigits 10 n).length

/-- The double nearest to a positive fraction. -/
def ofFraction (negative : Bool) (num den : Nat) : Binary64 :=
  let bits : Int := Nat.log2 num - Nat.log2 den
  let (a, b) := scale num den 2 (-bits)
  let top := if a < b then bits - 1 else bits
  let e := max (top - (precision - 1 : Nat)) minExponent
  let (a, b) := scale num den 2 (-e)
  let m := roundDiv a b
  let (m, e) := if m = Nat.pow 2 precision then (m / 2, e + 1) else (m, e)
  if maxExponent < e then infinite negative else finite negative m e

/-- **The double nearest to `digits · 10 ^ k`.**  Numbers far outside the range are decided by their
magnitude, before any power of ten is formed. -/
def ofDecimal (negative : Bool) (digits : Nat) (k : Int) : Binary64 :=
  let magnitude : Int := digitCount digits + k
  if digits = 0 ∨ magnitude < -400 then finite negative 0 minExponent
  else if 400 < magnitude then infinite negative
  else
    let (num, den) := scale digits 1 10 k
    ofFraction negative num den

/-- The double is zero, of either sign. -/
def isZero : Binary64 → Bool
  | finite _ 0 _ => true
  | _ => false

/-! ## Printing -/

/-- The decimal exponent of a positive fraction: the value lies below `10 ^ decimalExponent` and not
below a tenth of it. -/
def decimalExponent (num den : Nat) : Int :=
  if den ≤ num then digitCount (num / den) else 1 - digitCount ((den - 1) / num)

/-- A value given in quarters of its last place rounds to the significand `m`.  Below a power of two
the spacing is halved, so the lower bound is nearer there. -/
def roundsTo (m : Nat) (e : Int) (num den : Nat) : Bool :=
  let (a, b) := scale num den 2 (2 - e)
  let low := if m = Nat.pow 2 (precision - 1) ∧ minExponent < e then 4 * m - 1 else 4 * m - 2
  let high := 4 * m + 2
  if m % 2 = 0 then low * b ≤ a && a ≤ high * b else low * b < a && a < high * b

/-- The multiple of `10 ^ p` that is nearest to `num / den` among its two neighbours on that grid,
of those that round to the double. -/
def onGrid? (m : Nat) (e : Int) (num den : Nat) (p : Int) : Option Nat :=
  let (a, b) := scale num den 10 (-p)
  let q := a / b
  let hit (d : Nat) : Bool :=
    let (x, y) := scale d 1 10 p
    roundsTo m e x y
  let near := roundDiv a b
  let far := if near = q then q + 1 else q
  if hit near then some near else if hit far then some far else none

/-- **The shortest digits**: the digits and the place of the point before them, counted in digits
from the left. -/
def shortest (m : Nat) (e : Int) : Nat × Int :=
  let (num, den) := scale m 1 2 e
  let point := decimalExponent num den
  let found := (List.range 17).findSome? fun (n : Nat) =>
    (onGrid? m e num den (point - (n + 1 : Nat))).map fun d => (d, n + 1)
  match found with
  | some (d, n) => (d, point + digitCount d - n)
  | none => (m, point)

/-- Trailing zeros dropped. -/
def dropZeros (digits : List Char) : List Char :=
  (digits.reverse.dropWhile (· = '0')).reverse

/-- Digits with the point after the first `point` of them. -/
def positional (digits : List Char) (point : Int) : List Char :=
  if point ≤ 0 then '0' :: '.' :: (List.replicate point.natAbs '0' ++ digits)
  else
    let whole := point.toNat
    let padded := digits ++ List.replicate (whole - digits.length) '0'
    padded.take whole ++ '.' :: (if padded.length ≤ whole then ['0'] else padded.drop whole)

/-- Digits with the point after the first, and an exponent of two digits or more. -/
def scientific (digits : List Char) (point : Int) : List Char :=
  let e := point - 1
  let mantissa := match digits with
    | [] => []
    | [d] => [d]
    | d :: ds => d :: '.' :: ds
  let places := Nat.toDigits 10 e.natAbs
  mantissa ++ 'e' :: (if e < 0 then '-' else '+') ::
    (List.replicate (2 - places.length) '0' ++ places)

/-- **The text of a double.**  It is positional when the point stands less than four places before
the digits and at most sixteen after their start. -/
def display : Binary64 → String
  | nan => "nan"
  | infinite negative => if negative then "-inf" else "inf"
  | finite negative m e =>
    let body :=
      if m = 0 then "0.0".toList
      else
        let (d, point) := shortest m e
        let digits := dropZeros (Nat.toDigits 10 d)
        if -4 < point ∧ point ≤ 16 then positional digits point else scientific digits point
    String.ofList (if negative then '-' :: body else body)

end Binary64

end TruthTable
