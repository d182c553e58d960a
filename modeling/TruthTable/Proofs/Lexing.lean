import Mathlib.Data.List.DropRight
import TruthTable.Proofs.Formula
import TruthTable.Proofs.Identifier

/-!
# Proofs/Lexing — which characters make up which tokens

What a text is read as can be said without normalizing it first: white space has no meaning, a
character that stands for a token stands for it in each of its spellings, and a name goes as far as
it can.

* `Lexes` — the characters are read as the tokens.
* `scan_normalize_iff` — normalization and scan together read exactly these.
* `Lexes.append`, `Lexes.identifier` — texts side by side, where no name runs on.
-/

namespace TruthTable

open Text

/-- **The characters are read as the tokens.** -/
inductive Lexes : List Char → List Token → Prop
  | nil : Lexes [] []
  | blank {c cs ts} (hc : isBlank c = true) (h : Lexes cs ts) : Lexes (c :: cs) ts
  /-- A typographic apostrophe is spelled like the plain one. -/
  | sign {c t cs ts} (hc : Token.ofChar? (straighten c) = some t) (h : Lexes cs ts) :
    Lexes (c :: cs) (t :: ts)
  /-- A name goes as far as its characters do. -/
  | name {c cs ts} (hc : isLetter c = true) (h : Lexes (cs.dropWhile isNameChar) ts) :
    Lexes (c :: cs) (.var (String.ofList (c :: cs.takeWhile isNameChar)) :: ts)

/-! ## One character -/

variable {c : Char} {t : Token} {cs ds : List Char} {ts us : List Token}

theorem lexes_nil_iff : Lexes [] ts ↔ ts = [] :=
  ⟨fun h => by cases h; rfl, fun h => h ▸ .nil⟩

theorem lexes_blank_iff (hc : isBlank c = true) : Lexes (c :: cs) ts ↔ Lexes cs ts := by
  refine ⟨fun h => ?_, .blank hc⟩
  cases h with
  | blank _ h => exact h
  | sign ht _ => nomatch (ofChar?_of_isBlank hc).symm.trans ht
  | name hl _ => nomatch hc.symm.trans (isBlank_of_isNameChar (isNameChar_of_isLetter hl))

theorem lexes_sign_iff (hc : Token.ofChar? (straighten c) = some t) :
    Lexes (c :: cs) ts ↔ ∃ us, Lexes cs us ∧ t :: us = ts := by
  constructor
  · intro h
    cases h with
    | blank hb _ => nomatch (ofChar?_of_isBlank hb).symm.trans hc
    | sign ht h => exact ⟨_, h, by rw [Option.some.inj (hc.symm.trans ht)]⟩
    | name hl _ => nomatch (ofChar?_straighten_of_isLetter hl).symm.trans hc
  · rintro ⟨us, h, rfl⟩
    exact .sign hc h

theorem lexes_name_iff (hc : isLetter c = true) :
    Lexes (c :: cs) ts ↔ ∃ us, Lexes (cs.dropWhile isNameChar) us ∧
      .var (String.ofList (c :: cs.takeWhile isNameChar)) :: us = ts := by
  constructor
  · intro h
    cases h with
    | blank hb _ => nomatch hb.symm.trans (isBlank_of_isNameChar (isNameChar_of_isLetter hc))
    | sign ht _ => nomatch (ofChar?_straighten_of_isLetter hc).symm.trans ht
    | name _ h => exact ⟨_, h, rfl⟩
  · rintro ⟨us, h, rfl⟩
    exact .name hc h

/-! ## Where names end -/

/-- **A name ends in front of the characters.** -/
def EndsName (cs : List Char) : Prop := ∀ c ∈ cs.head?, isNameChar c = false

theorem endsName_nil : EndsName [] := fun _ h => nomatch h

theorem endsName_cons (hc : isNameChar c = false) (cs : List Char) : EndsName (c :: cs) :=
  fun _ h => Option.some.inj h ▸ hc

theorem endsName_dropWhile (cs : List Char) : EndsName (cs.dropWhile isNameChar) := by
  intro c hc
  have hstop := List.head?_dropWhile_not isNameChar cs
  rwa [Option.mem_def.1 hc] at hstop

theorem EndsName.takeWhile (h : EndsName cs) : cs.takeWhile isNameChar = [] := by
  cases cs with
  | nil => rfl
  | cons c cs => exact List.takeWhile_cons_of_neg (by simp [h c rfl])

theorem EndsName.dropWhile (h : EndsName cs) : cs.dropWhile isNameChar = cs := by
  cases cs with
  | nil => rfl
  | cons c cs => exact List.dropWhile_cons_of_neg (by simp [h c rfl])

/-- The characters of a name go as far as the name. -/
theorem EndsName.takeWhile_append (h : EndsName cs) (hds : ∀ d ∈ ds, isNameChar d = true) :
    (ds ++ cs).takeWhile isNameChar = ds := by
  rw [List.takeWhile_append_of_pos hds, h.takeWhile, List.append_nil]

theorem EndsName.dropWhile_append (h : EndsName cs) (hds : ∀ d ∈ ds, isNameChar d = true) :
    (ds ++ cs).dropWhile isNameChar = cs := by
  rw [List.dropWhile_append_of_pos hds, h.dropWhile]

/-- What a name ends in front of does not go on with it. -/
theorem EndsName.takeWhile_append_left (h : EndsName ds) (cs : List Char) :
    (cs ++ ds).takeWhile isNameChar = cs.takeWhile isNameChar := by
  rw [List.takeWhile_append, h.takeWhile, List.append_nil]
  split
  · rename_i hlength
    exact ((List.takeWhile_prefix _).eq_of_length hlength).symm
  · rfl

theorem EndsName.dropWhile_append_left (h : EndsName ds) (cs : List Char) :
    (cs ++ ds).dropWhile isNameChar = cs.dropWhile isNameChar ++ ds := by
  rw [List.dropWhile_append]
  split
  · rename_i hnil
    rw [List.isEmpty_iff.1 hnil, h.dropWhile, List.nil_append]
  · rfl

/-! ## Normalization

Blanks in front do not stop the scan, so for the induction they may stay: `tidy` drops only those at
the end. -/

/-- The text with its blanks squeezed and **none at its end**. -/
def tidy (cs : List Char) : List Char := (squeeze (cs.map straighten)).rdropWhile isBlank

theorem rdropWhile_cons_of_neg {p : Char → Bool} (hc : p c = false) (cs : List Char) :
    (c :: cs).rdropWhile p = c :: cs.rdropWhile p := by
  induction cs using List.reverseRecOn with
  | nil => rw [List.rdropWhile_singleton, hc]; rfl
  | append_singleton cs d ih =>
    rw [← List.cons_append, List.rdropWhile_concat, List.rdropWhile_concat, ih]
    split <;> rfl

theorem rdropWhile_cons_of_pos {p : Char → Bool} (hc : p c = true) (cs : List Char) :
    ((c :: cs).rdropWhile p = [] ∧ cs.rdropWhile p = []) ∨
      (c :: cs).rdropWhile p = c :: cs.rdropWhile p := by
  induction cs using List.reverseRecOn with
  | nil => exact .inl ⟨by rw [List.rdropWhile_singleton, if_pos hc], rfl⟩
  | append_singleton cs d ih =>
    rw [← List.cons_append, List.rdropWhile_concat, List.rdropWhile_concat]
    split
    · exact ih
    · exact .inr rfl

theorem tidy_cons (hc : isBlank c = false) (cs : List Char) :
    tidy (c :: cs) = straighten c :: tidy cs := by
  have hc : isBlank (straighten c) = false := by rw [isBlank_straighten, hc]
  rw [tidy, List.map_cons, squeeze_cons_of_not_isBlank _ hc, rdropWhile_cons_of_neg hc]
  rfl

/-- **A blank is dropped at the end**, and is else one with the blanks behind it. -/
theorem tidy_cons_of_isBlank (hc : isBlank c = true) (cs : List Char) :
    (tidy (c :: cs) = [] ∧ tidy cs = []) ∨
      ∃ rest, tidy (c :: cs) = ' ' :: rest ∧ (tidy cs = rest ∨ tidy cs = ' ' :: rest) := by
  have hc : isBlank (straighten c) = true := by rw [isBlank_straighten, hc]
  rw [tidy, tidy, List.map_cons, squeeze, if_pos hc]
  split
  · rename_i rest hrest
    rw [hrest]
    rcases rdropWhile_cons_of_pos isBlank_space rest with ⟨h, _⟩ | h
    · exact .inl ⟨h, h⟩
    · exact .inr ⟨_, h, .inr h⟩
  · rcases rdropWhile_cons_of_pos isBlank_space (squeeze (cs.map straighten)) with h | h
    · exact .inl h
    · exact .inr ⟨_, h, .inl rfl⟩

/-- A name that ends in the text ends in the tidy one. -/
theorem EndsName.tidy (h : EndsName cs) : EndsName (tidy cs) := by
  cases cs with
  | nil => exact endsName_nil
  | cons c cs =>
    cases hc : isBlank c with
    | false =>
      rw [tidy_cons hc]
      exact endsName_cons ((isNameChar_straighten c).trans (h c rfl)) _
    | true =>
      rcases tidy_cons_of_isBlank hc cs with ⟨hnil, _⟩ | ⟨rest, hcons, _⟩
      · rw [hnil]; exact endsName_nil
      · rw [hcons]; exact endsName_cons rfl rest

/-- The characters of a name stay as they are. -/
theorem takeWhile_tidy : ∀ cs : List Char,
    (tidy cs).takeWhile isNameChar = cs.takeWhile isNameChar
  | [] => rfl
  | c :: cs => by
    cases hc : isNameChar c with
    | true =>
      rw [tidy_cons (isBlank_of_isNameChar hc), straighten_of_isNameChar hc,
        List.takeWhile_cons_of_pos hc, List.takeWhile_cons_of_pos hc, takeWhile_tidy cs]
    | false =>
      have hend : EndsName (c :: cs) := endsName_cons hc cs
      rw [hend.takeWhile, hend.tidy.takeWhile]

theorem dropWhile_tidy : ∀ cs : List Char,
    (tidy cs).dropWhile isNameChar = tidy (cs.dropWhile isNameChar)
  | [] => rfl
  | c :: cs => by
    cases hc : isNameChar c with
    | true =>
      rw [tidy_cons (isBlank_of_isNameChar hc), straighten_of_isNameChar hc,
        List.dropWhile_cons_of_pos hc, List.dropWhile_cons_of_pos hc, dropWhile_tidy cs]
    | false =>
      have hend : EndsName (c :: cs) := endsName_cons hc cs
      rw [hend.dropWhile, hend.tidy.dropWhile]

theorem squeeze_cons_of_isBlank (hc : isBlank c = true) (cs : List Char) :
    (squeeze (c :: cs)).dropWhile isBlank = (squeeze cs).dropWhile isBlank := by
  rw [squeeze, if_pos hc]
  split
  · rename_i hrest
    rw [hrest]
  · rfl

/-- **Normalization** drops the blanks in front as well. -/
theorem normalize_eq_tidy : ∀ cs : List Char, normalize cs = tidy (cs.dropWhile isBlank)
  | [] => rfl
  | c :: cs => by
    have hstraight := isBlank_straighten c
    cases hc : isBlank c with
    | true =>
      rw [hc] at hstraight
      rw [List.dropWhile_cons_of_pos hc, ← normalize_eq_tidy cs, normalize, normalize, trim, trim,
        List.map_cons, squeeze_cons_of_isBlank hstraight]
    | false =>
      rw [hc] at hstraight
      have hsqueeze := squeeze_cons_of_not_isBlank (cs.map straighten) hstraight
      rw [List.dropWhile_cons_of_neg (by simp [hc]), normalize, trim, List.map_cons, hsqueeze,
        List.dropWhile_cons_of_neg (by simp [hstraight]), ← hsqueeze]
      rfl

/-! ## The scan -/

theorem scanFrom_space (pos : Nat) (cs : List Char) :
    scanFrom pos (' ' :: cs) = scanFrom (pos + 1) cs := by
  rw [scanFrom, if_pos rfl]

theorem scanFrom_sign (pos : Nat) (cs : List Char) (hc : Token.ofChar? c = some t) :
    scanFrom pos (c :: cs) = (t :: ·) <$> scanFrom (pos + 1) cs := by
  have hspace : c ≠ ' ' := by
    rintro rfl
    nomatch hc
  rw [scanFrom, if_neg hspace, hc]

theorem scanFrom_name (pos : Nat) (cs : List Char) (hc : isLetter c = true) :
    scanFrom pos (c :: cs) = (.var (String.ofList (c :: cs.takeWhile isNameChar)) :: ·) <$>
      scanFrom (pos + 1 + (cs.takeWhile isNameChar).length) (cs.dropWhile isNameChar) := by
  have hspace : c ≠ ' ' := by
    rintro rfl
    nomatch hc
  rw [scanFrom, if_neg hspace, ofChar?_of_isLetter hc]
  exact if_pos hc

/-- A character that starts no token stops the scan. -/
theorem scanFrom_other (pos : Nat) (cs : List Char) (hblank : isBlank c = false)
    (hsign : Token.ofChar? c = none) (hletter : isLetter c = false) :
    scanFrom pos (c :: cs) = .error (.unexpectedChar (pos + 1) c) := by
  have hspace : c ≠ ' ' := by
    rintro rfl
    nomatch hblank
  rw [scanFrom, if_neg hspace, hsign]
  exact if_neg (by simp [hletter])

theorem not_lexes_other (hblank : isBlank c = false)
    (hsign : Token.ofChar? (straighten c) = none) (hletter : isLetter c = false) :
    ¬ Lexes (c :: cs) ts := by
  intro h
  cases h with
  | blank hc _ => nomatch hblank.symm.trans hc
  | sign hc _ => nomatch hsign.symm.trans hc
  | name hc _ => nomatch hletter.symm.trans hc

/-- **The scan of a tidy text** reads what its characters are read as. -/
theorem scanFrom_tidy_iff : ∀ {cs : List Char} {pos : Nat} {ts : List Token},
    scanFrom pos (tidy cs) = .ok ts ↔ Lexes cs ts
  | [], pos, ts => by
    rw [lexes_nil_iff, eq_comm, show tidy [] = [] from rfl, scanFrom, Except.ok.injEq]
  | c :: cs, pos, ts => by
    cases hblank : isBlank c with
    | true =>
      rw [lexes_blank_iff hblank]
      rcases tidy_cons_of_isBlank hblank cs with ⟨h, hnil⟩ | ⟨rest, h, hrest | hrest⟩
      · rw [h, ← hnil, scanFrom_tidy_iff]
      · rw [h, scanFrom_space, ← hrest, scanFrom_tidy_iff]
      · rw [h, ← hrest, scanFrom_tidy_iff]
    | false =>
      rw [tidy_cons hblank]
      cases hsign : Token.ofChar? (straighten c) with
      | some t =>
        have ih {pos us} : scanFrom pos (tidy cs) = .ok us ↔ Lexes cs us := scanFrom_tidy_iff
        simp only [scanFrom_sign pos _ hsign, lexes_sign_iff hsign, map_eq_ok_iff, ih]
      | none =>
        have hself : straighten c = c := by
          refine (straighten_eq c).resolve_right fun hprime => ?_
          rw [hprime] at hsign
          cases hsign
        cases hletter : isLetter c with
        | true =>
          have hlength := length_dropWhile_le isNameChar cs
          have ih {pos us} : scanFrom pos (tidy (cs.dropWhile isNameChar)) = .ok us ↔
              Lexes (cs.dropWhile isNameChar) us := scanFrom_tidy_iff
          simp only [hself, scanFrom_name pos _ hletter, lexes_name_iff hletter, map_eq_ok_iff,
            takeWhile_tidy, dropWhile_tidy, ih]
        | false =>
          rw [hself, scanFrom_other pos _ hblank (hself ▸ hsign) hletter]
          exact iff_of_false (by simp) (not_lexes_other hblank hsign hletter)
termination_by cs => cs.length

theorem lexes_dropWhile_iff : ∀ {cs : List Char}, Lexes (cs.dropWhile isBlank) ts ↔ Lexes cs ts
  | [] => .rfl
  | c :: cs => by
    cases hc : isBlank c with
    | true => rw [List.dropWhile_cons_of_pos hc, lexes_dropWhile_iff, lexes_blank_iff hc]
    | false => rw [List.dropWhile_cons_of_neg (by simp [hc])]

/-- **Normalization and scan read what the characters are read as.** -/
theorem scan_normalize_iff : scan (normalize cs) = .ok ts ↔ Lexes cs ts := by
  rw [scan, normalize_eq_tidy, scanFrom_tidy_iff, lexes_dropWhile_iff]

/-- **The tokens of a text** are those its characters are read as, every `and` written out. -/
theorem tokenize_eq_ok_iff {text : String} :
    tokenize text = .ok ts ↔ ∃ us, Lexes text.toList us ∧ insertAnds us = ts := by
  simp only [tokenize, map_eq_ok_iff, scan_normalize_iff]

/-! ## Texts side by side -/

/-- **An identifier is read as its variable** where its name ends behind it. -/
theorem Lexes.identifier {name : String} (hname : IsIdentifier name) (hcs : EndsName cs)
    (h : Lexes cs ts) : Lexes (name.toList ++ cs) (.var name :: ts) := by
  obtain ⟨c, ds, heq, hc, hds⟩ := hname
  have htake := hcs.takeWhile_append hds
  have hdrop := hcs.dropWhile_append hds
  have hword : String.ofList (c :: ds) = name := heq ▸ String.ofList_toList
  rw [heq, List.cons_append, ← hword]
  have hrest : Lexes (c :: (ds ++ cs)) _ := .name hc (hdrop.symm ▸ h)
  rwa [htake] at hrest

/-- **Texts side by side** are read one after the other, unless a name runs on into the second. -/
theorem Lexes.append (h : Lexes cs ts) (hds : EndsName ds) (h' : Lexes ds us) :
    Lexes (cs ++ ds) (ts ++ us) := by
  induction h with
  | nil => exact h'
  | blank hc _ ih => exact .blank hc ih
  | sign hc _ ih => exact .sign hc ih
  | @name c cs ts hc _ ih =>
    rw [List.cons_append, List.cons_append, ← hds.takeWhile_append_left cs]
    exact .name hc (hds.dropWhile_append_left cs ▸ ih)

/-- Parentheses around a text keep its tokens together. -/
theorem Lexes.group (h : Lexes cs ts) :
    Lexes ('(' :: (cs ++ [')'])) (.mark .lparen :: (ts ++ [.mark .rparen])) :=
  .sign rfl (h.append (endsName_cons rfl []) (.sign rfl .nil))

theorem Lexes.prime (h : Lexes cs ts) : Lexes (cs ++ ['\'']) (ts ++ [.mark .prime]) :=
  h.append (endsName_cons rfl []) (.sign rfl .nil)

/-- An identifier is one token. -/
theorem IsIdentifier.lexes {name : String} (h : IsIdentifier name) :
    Lexes name.toList [.var name] := by
  simpa using Lexes.identifier h endsName_nil .nil

theorem tokenize_of_isIdentifier {name : String} (h : IsIdentifier name) :
    tokenize name = .ok [.var name] :=
  tokenize_eq_ok_iff.2 ⟨_, h.lexes, insertAnds_singleton _⟩

/-- **An identifier spells its variable.** -/
theorem Formula.spells_of_isIdentifier {name : String} (h : IsIdentifier name) :
    Spells name (.var name) :=
  ⟨_, _, tokenize_of_isIdentifier h, rfl, rfl⟩

end TruthTable
