import TruthTable.Text.Quoted

/-!
# Text/Utf8 — the text of a file

A file holds its text in UTF-8, and every line end of it counts as one newline.  Bytes that are no
UTF-8 are refused with the place and the reason.

* `Utf8.decode` — the characters of the bytes, or the first fault.
* `Utf8.unifyNewlines` — every line end as a newline.
* `Utf8.readText` — the two in a row.
-/

namespace TruthTable.Text.Utf8

/-- Why some bytes stand for **no character**. -/
inductive Reason where
  | invalidStart
  | invalidContinuation
  | unexpectedEnd
  deriving DecidableEq, Repr

/-- The wording of a reason. -/
def Reason.message : Reason → String
  | invalidStart => "invalid start byte"
  | invalidContinuation => "invalid continuation byte"
  | unexpectedEnd => "unexpected end of data"

/-- **A fault in a row of bytes**: where it starts, how many bytes it covers, and the first one. -/
structure Error where
  start : Nat
  count : Nat
  byte : UInt8
  reason : Reason
  deriving DecidableEq, Repr

/-- The wording of a fault. -/
def Error.message (e : Error) : String :=
  let subject :=
    if e.count = 1 then s!"byte 0x{hex 2 e.byte.toNat} in position {e.start}"
    else s!"bytes in position {e.start}-{e.start + e.count - 1}"
  s!"'utf-8' codec can't decode {subject}: {e.reason.message}"

/-- The **ranges of the bytes that follow** a first byte, unless it starts no character.  The range
of the second byte leaves out overlong forms, surrogates, and what lies past the last code point. -/
def tails? (first : Nat) : Option (List (Nat × Nat)) :=
  let any := (0x80, 0xBF)
  if first < 0x80 then some []
  else if first < 0xC2 then none
  else if first < 0xE0 then some [any]
  else if first = 0xE0 then some [(0xA0, 0xBF), any]
  else if first = 0xED then some [(0x80, 0x9F), any]
  else if first < 0xF0 then some [any, any]
  else if first = 0xF0 then some [(0x90, 0xBF), any, any]
  else if first < 0xF4 then some [any, any, any]
  else if first = 0xF4 then some [(0x80, 0x8F), any, any]
  else none

/-- The number of bytes that fall into the ranges, one after the other. -/
def matching : List (Nat × Nat) → List UInt8 → Nat
  | (low, high) :: ranges, b :: bytes =>
    if low ≤ b.toNat ∧ b.toNat ≤ high then matching ranges bytes + 1 else 0
  | _, _ => 0

/-- The code point of a first byte and the bytes that follow it. -/
def codePoint (first : Nat) (rest : List UInt8) : Nat :=
  let payload := match rest.length with
    | 0 => first
    | 1 => first % 0x20
    | 2 => first % 0x10
    | _ => first % 0x08
  rest.foldl (fun n b => n * 0x40 + b.toNat % 0x40) payload

/-- The characters of what is left of the bytes at `pos`, of which the first `skip` belong to a
character that is read already; the characters so far are in `read`, latest first. -/
def decodeFrom : (read : List Char) → (pos skip : Nat) → List UInt8 → Except Error (List Char)
  | read, _, _, [] => .ok read.reverse
  | read, pos, skip + 1, _ :: bytes => decodeFrom read (pos + 1) skip bytes
  | read, pos, 0, b :: bytes =>
    match tails? b.toNat with
    | none => .error ⟨pos, 1, b, .invalidStart⟩
    | some ranges =>
      let found := matching ranges bytes
      if found = ranges.length then
        let c := Char.ofNat (codePoint b.toNat (bytes.take found))
        decodeFrom (c :: read) (pos + 1) found bytes
      else if found = bytes.length then .error ⟨pos, found + 1, b, .unexpectedEnd⟩
      else .error ⟨pos, found + 1, b, .invalidContinuation⟩

/-- **The characters of the bytes.** -/
def decode (bytes : List UInt8) : Except Error (List Char) := decodeFrom [] 0 0 bytes

/-- **Every line end as a newline**: a carriage return, alone or before a newline, is one. -/
def unifyNewlines : List Char → List Char
  | '\r' :: '\n' :: cs => '\n' :: unifyNewlines cs
  | '\r' :: cs => '\n' :: unifyNewlines cs
  | c :: cs => c :: unifyNewlines cs
  | [] => []

/-- **The text of a file.** -/
def readText (bytes : List UInt8) : Except Error (List Char) := unifyNewlines <$> decode bytes

end TruthTable.Text.Utf8
