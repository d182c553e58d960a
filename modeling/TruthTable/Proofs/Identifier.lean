import TruthTable.Token.Lexer

/-!
# Proofs/Identifier — names and the other characters of a text

A character is a blank, or a token by itself, or belongs to a name; no character is two of these,
and straightening an apostrophe changes none of them.

* `IsIdentifier` — what is read as one name, whatever its length.
* `isBlank_of_isNameChar`, `ofChar?_of_isLetter`, … — the classes are apart.
-/

namespace TruthTable

open Text

/-- **A name as it is written**: a letter, then letters, digits and underscores. -/
def IsIdentifier (name : String) : Prop :=
  ∃ c cs, name.toList = c :: cs ∧ isLetter c = true ∧ ∀ d ∈ cs, isNameChar d = true

instance decidableIsIdentifier (name : String) : Decidable (IsIdentifier name) :=
  decidable_of_iff
    ((name.toList.head?.any isLetter && name.toList.tail.all isNameChar) = true) <| by
    unfold IsIdentifier
    cases name.toList with
    | nil => simp
    | cons c cs => simp [and_assoc]

/-! ## The classes of characters -/

theorem isNameChar_of_isLetter {c : Char} (h : isLetter c = true) : isNameChar c = true := by
  rw [isNameChar, h]
  rfl

theorem IsIdentifier.forall_isNameChar {name : String} (h : IsIdentifier name) :
    ∀ c ∈ name.toList, isNameChar c = true := by
  obtain ⟨c, cs, heq, hc, hcs⟩ := h
  rw [heq]
  exact List.forall_mem_cons.2 ⟨isNameChar_of_isLetter hc, hcs⟩

/-- The characters of a name are printable and within ASCII. -/
theorem toNat_of_isNameChar {c : Char} (h : isNameChar c = true) :
    33 ≤ c.toNat ∧ c.toNat ≤ 127 := by
  simp only [isNameChar, isLetter, Bool.or_eq_true, Bool.and_eq_true, decide_eq_true_eq,
    beq_iff_eq, Char.le_def, UInt32.le_iff_toNat_le] at h
  unfold Char.toNat
  rcases h with ((⟨hlo, hhi⟩ | ⟨hlo, hhi⟩) | ⟨hlo, hhi⟩) | rfl
  · exact ⟨Nat.le_trans (by decide) hlo, Nat.le_trans hhi (by decide)⟩
  · exact ⟨Nat.le_trans (by decide) hlo, Nat.le_trans hhi (by decide)⟩
  · exact ⟨Nat.le_trans (by decide) hlo, Nat.le_trans hhi (by decide)⟩
  · decide

theorem isBlank_of_isNameChar {c : Char} (h : isNameChar c = true) : isBlank c = false := by
  obtain ⟨hlo, hhi⟩ := toNat_of_isNameChar h
  simp [isBlank]
  omega

theorem straighten_of_isNameChar {c : Char} (h : isNameChar c = true) : straighten c = c := by
  refine if_neg ?_
  rintro (rfl | rfl | rfl) <;> exact absurd h (by decide)

theorem isBlank_of_ofChar? {c : Char} {t : Token} (h : Token.ofChar? c = some t) :
    isBlank c = false := by
  unfold Token.ofChar? at h
  split at h <;> cases h <;> rfl

/-- Only apostrophes are straightened. -/
theorem straighten_eq (c : Char) : straighten c = c ∨ straighten c = '\'' := by
  unfold straighten
  split
  · exact .inr rfl
  · exact .inl rfl

/-- The **apostrophes** that negate what stands before them. -/
def apostrophes : List Char := ['\'', '\u2018', '\u2019', '\u02bc']

/-- **Every apostrophe is straightened** to the plain one, and nothing else is. -/
theorem straighten_eq_prime_iff {c : Char} : straighten c = '\'' ↔ c ∈ apostrophes := by
  simp only [apostrophes, List.mem_cons, List.not_mem_nil, or_false]
  unfold straighten
  split
  next h => exact iff_of_true rfl (.inr h)
  next h => exact ⟨.inl, fun hc => hc.resolve_right h⟩

theorem isBlank_straighten (c : Char) : isBlank (straighten c) = isBlank c := by
  unfold straighten
  split
  next h => rcases h with rfl | rfl | rfl <;> rfl
  next => rfl

theorem isNameChar_straighten (c : Char) : isNameChar (straighten c) = isNameChar c := by
  unfold straighten
  split
  next h => rcases h with rfl | rfl | rfl <;> rfl
  next => rfl

theorem ofChar?_of_isLetter {c : Char} (h : isLetter c = true) : Token.ofChar? c = none := by
  unfold Token.ofChar?
  split
  all_goals first | rfl | exact absurd h (by decide)

theorem ofChar?_of_isBlank {c : Char} (h : isBlank c = true) :
    Token.ofChar? (straighten c) = none := by
  cases ht : Token.ofChar? (straighten c) with
  | none => rfl
  | some t => rw [← isBlank_straighten, isBlank_of_ofChar? ht] at h; nomatch h

theorem ofChar?_straighten_of_isLetter {c : Char} (h : isLetter c = true) :
    Token.ofChar? (straighten c) = none := by
  rw [straighten_of_isNameChar (isNameChar_of_isLetter h), ofChar?_of_isLetter h]

end TruthTable
