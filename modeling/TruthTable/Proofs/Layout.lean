import TruthTable.Proofs.Acceptance
import TruthTable.Proofs.Lexing

/-!
# Proofs/Layout — the texts that are read as given tokens

A text is laid out from tokens: each is written in one of its spellings, and blanks may stand
anywhere around them.  Only behind a variable they may be needed, where the next token would run on
in its name.  These are all the texts that are read as the tokens, and no difference between them
outlasts the reading.

* `Token.Spelled` — how a token is written.
* `Layout` — spellings and blanks for a list of tokens.
* `lexes_iff_layout` — the texts that are read as the tokens are their layouts.
-/

namespace TruthTable

open Text

/-! ## Spellings -/

/-- The characters that stand for the connective, **each by itself**. -/
def Connective.signs : Connective → List Char
  | and => ['*', '.', '·']
  | xor => ['^']
  | or => ['+', '|']

namespace Token

/-- The characters that stand for the token, **each by itself**. -/
def signs : Token → List Char
  | var _ => []
  | const b => if b then ['1'] else ['0']
  | mark .lparen => ['(']
  | mark .rparen => [')']
  | mark .prime => apostrophes
  | op .not inFront => if inFront then ['!', '~'] else []
  | op (.conn c) inFront => if inFront then [] else c.signs

/-- **The token is written so.** -/
inductive Spelled : Token → List Char → Prop
  | name {n} (h : IsIdentifier n) : Spelled (var n) n.toList
  | sign {t c} (h : c ∈ t.signs) : Spelled t [c]

theorem all_signs : ∀ t : Token,
    (t.signs.all fun c => ofChar? (straighten c) = some t ∧ isNameChar c = t.isOperand) = true
  | var _ => rfl
  | const true | const false | mark .lparen | mark .rparen | mark .prime => by decide
  | op .not true | op .not false => by decide
  | op (.conn .and) true | op (.conn .xor) true | op (.conn .or) true => by decide
  | op (.conn .and) false | op (.conn .xor) false | op (.conn .or) false => by decide

/-- A sign is read as its token, and belongs to a name just if it is a constant. -/
theorem ofChar?_of_mem_signs {t : Token} (c : Char) (h : c ∈ t.signs) :
    ofChar? (straighten c) = some t ∧ isNameChar c = t.isOperand :=
  of_decide_eq_true (List.all_eq_true.1 t.all_signs c h)

/-- **The signs of a token** are the characters that are read as it. -/
theorem mem_signs_iff {t : Token} {c : Char} :
    c ∈ t.signs ↔ ofChar? (straighten c) = some t := by
  refine ⟨fun h => (ofChar?_of_mem_signs c h).1, fun h => ?_⟩
  rcases straighten_eq c with hself | hprime
  · rw [hself] at h
    unfold ofChar? at h
    split at h <;> cases h <;> decide
  · rw [hprime] at h
    cases h
    exact straighten_eq_prime_iff.1 hprime

/-- **What is written for a token** starts with a character of names just if it is an operand. -/
theorem Spelled.exists_cons {t : Token} {s : List Char} (h : t.Spelled s) :
    ∃ c cs, s = c :: cs ∧ isNameChar c = t.isOperand := by
  cases h with
  | name h =>
    obtain ⟨c, cs, heq, hc, -⟩ := h
    exact ⟨c, cs, heq, isNameChar_of_isLetter hc⟩
  | @sign t c h => exact ⟨c, [], rfl, (ofChar?_of_mem_signs c h).2⟩

/-- **The second token would run on** in the name of the first one. -/
def RunsOn (t u : Token) : Prop := t.name?.isSome = true ∧ u.isOperand = true

end Token

/-! ## Layouts -/

/-- **A token as it is written**, with the blanks behind it. -/
structure Piece where
  token : Token
  spelling : List Char
  gap : List Char
  spelled : token.Spelled spelling
  blank : ∀ c ∈ gap, isBlank c = true

/-- **A layout of a list of tokens.**  A gap is needed only where a token would run on in the name
of a variable. -/
structure Layout where
  /-- The blanks in front of all tokens. -/
  lead : List Char
  pieces : List Piece
  blank : ∀ c ∈ lead, isBlank c = true
  apart : pieces.IsChain fun p q => p.token.RunsOn q.token → p.gap ≠ []

namespace Layout

/-- The characters of written tokens in a row. -/
def written (ps : List Piece) : List Char := ps.flatMap fun p => p.spelling ++ p.gap

/-- The characters of the layout. -/
def chars (l : Layout) : List Char := l.lead ++ written l.pieces

/-- **The text** of the layout. -/
def text (l : Layout) : String := String.ofList l.chars

/-- **The tokens** that are laid out. -/
def tokens (l : Layout) : List Token := l.pieces.map Piece.token

/-! ### Layouts are read as their tokens -/

theorem lexes_blanks {cs : List Char} {ts : List Token} (h : Lexes cs ts) :
    ∀ {gap : List Char}, (∀ c ∈ gap, isBlank c = true) → Lexes (gap ++ cs) ts
  | [], _ => h
  | _ :: _, hgap =>
    have ⟨hc, hgap⟩ := List.forall_mem_cons.1 hgap
    .blank hc (lexes_blanks h hgap)

/-- **A name ends behind its variable**: at a blank, or at what does not run on. -/
theorem endsName_written {p : Piece} {ps : List Piece}
    (h : (p :: ps).IsChain fun p q => p.token.RunsOn q.token → p.gap ≠ [])
    (hp : p.token.name?.isSome = true) : EndsName (p.gap ++ written ps) := by
  cases hgap : p.gap with
  | cons c cs =>
    have hblank : isBlank c = true := p.blank c (by simp [hgap])
    refine endsName_cons ?_ _
    by_contra hname
    nomatch hblank.symm.trans (isBlank_of_isNameChar (Bool.not_eq_false _ ▸ hname))
  | nil =>
    cases ps with
    | nil => exact endsName_nil
    | cons q qs =>
      obtain ⟨c, cs, hspelling, hc⟩ := q.spelled.exists_cons
      have hrun : q.token.isOperand = false := by
        by_contra hoperand
        exact (List.isChain_cons_cons.1 h).1 ⟨hp, Bool.not_eq_false _ ▸ hoperand⟩ hgap
      simp only [written, List.flatMap_cons, hspelling, List.nil_append, List.cons_append]
      exact endsName_cons (hc.trans hrun) _

theorem lexes_written : ∀ {ps : List Piece},
    (ps.IsChain fun p q => p.token.RunsOn q.token → p.gap ≠ []) →
      Lexes (written ps) (ps.map Piece.token)
  | [], _ => .nil
  | p :: ps, h => by
    have hrest : Lexes (p.gap ++ written ps) (ps.map Piece.token) :=
      lexes_blanks (lexes_written h.tail) p.blank
    have hends := endsName_written h
    obtain ⟨token, spelling, gap, spelled, blank⟩ := p
    rw [written, List.flatMap_cons, List.append_assoc, List.map_cons]
    cases spelled with
    | name hname => exact .identifier hname (hends rfl) hrest
    | sign hsign => exact .sign (Token.mem_signs_iff.1 hsign) hrest

/-- **A layout is read as its tokens.** -/
theorem lexes (l : Layout) : Lexes l.chars l.tokens := lexes_blanks (lexes_written l.apart) l.blank

/-! ### What is read is laid out -/

/-- A name ends in front of a layout only if its first token does not run on in it. -/
theorem lead_ne_nil {l : Layout} {p : Piece} (hends : EndsName l.chars) (hp : p ∈ l.pieces.head?)
    (hoperand : p.token.isOperand = true) : l.lead ≠ [] := by
  intro hlead
  obtain ⟨ps, hps⟩ := List.head?_eq_some_iff.1 hp
  obtain ⟨c, cs, hspelling, hc⟩ := p.spelled.exists_cons
  have hchars : l.chars = c :: (cs ++ p.gap ++ written ps) := by
    simp [chars, hlead, hps, written, hspelling]
  have hfalse := hends c (hchars ▸ rfl)
  rw [hc, hoperand] at hfalse
  nomatch hfalse

/-- **One token more in front**; the blanks in front of the others are those behind it. -/
def cons (l : Layout) {t : Token} {s : List Char} (hs : t.Spelled s)
    (hends : t.name?.isSome = true → EndsName l.chars) : Layout where
  lead := []
  pieces := ⟨t, s, l.lead, hs, l.blank⟩ :: l.pieces
  blank := by simp
  apart := List.isChain_cons.2
    ⟨fun _ hq hrun => lead_ne_nil (hends hrun.1) hq hrun.2, l.apart⟩

theorem chars_cons (l : Layout) {t : Token} {s : List Char} (hs : t.Spelled s)
    (hends : t.name?.isSome = true → EndsName l.chars) :
    (l.cons hs hends).chars = s ++ l.chars := by
  simp [cons, chars, written]

/-- **What is read as the tokens is one of their layouts.** -/
theorem exists_layout {cs : List Char} {ts : List Token} (h : Lexes cs ts) :
    ∃ l : Layout, l.chars = cs ∧ l.tokens = ts := by
  induction h with
  | nil => exact ⟨⟨[], [], by simp, .nil⟩, rfl, rfl⟩
  | blank hc _ ih =>
    obtain ⟨l, rfl, rfl⟩ := ih
    let m : Layout :=
      { l with lead := _ :: l.lead, blank := List.forall_mem_cons.2 ⟨hc, l.blank⟩ }
    exact ⟨m, rfl, rfl⟩
  | @sign c t cs ts hc _ ih =>
    obtain ⟨l, rfl, rfl⟩ := ih
    have hname : t.name?.isSome = true → EndsName l.chars := by
      intro hname
      cases t with
      | var n => exact absurd (Token.mem_signs_iff.2 hc) (by simp [Token.signs])
      | _ => nomatch hname
    exact ⟨l.cons (.sign (Token.mem_signs_iff.2 hc)) hname, chars_cons _ _ _, rfl⟩
  | @name c cs ts hc _ ih =>
    obtain ⟨l, hl, rfl⟩ := ih
    have hident : IsIdentifier (String.ofList (c :: cs.takeWhile isNameChar)) :=
      ⟨c, _, String.toList_ofList, hc, fun d hd => List.mem_takeWhile_imp hd⟩
    have hends : EndsName l.chars := hl ▸ endsName_dropWhile cs
    refine ⟨l.cons (.name hident) fun _ => hends, ?_, rfl⟩
    rw [chars_cons, hl, String.toList_ofList, List.cons_append, List.takeWhile_append_dropWhile]

end Layout

/-- **The texts that are read as the tokens** are their layouts. -/
theorem lexes_iff_layout {cs : List Char} {ts : List Token} :
    Lexes cs ts ↔ ∃ l : Layout, l.chars = cs ∧ l.tokens = ts :=
  ⟨Layout.exists_layout, fun ⟨l, hl, hts⟩ => hl ▸ hts ▸ l.lexes⟩

/-! ## What outlasts the reading -/

/-- **Only the tokens of a text are compiled**; the text is kept beside what becomes of them. -/
theorem Formula.compile_of_tokenize {text text' : String} (h : tokenize text' = tokenize text) :
    compile text' = (fun f => { f with text := text' }) <$> compile text := by
  simp only [compile, h]
  cases (tokenize text).mapError Failure.expr with
  | error e => rfl
  | ok ts =>
    simp only [bind, Except.bind]
    cases (Postfix.ofInfix ts).mapError Failure.expr with
    | error e => rfl
    | ok seq =>
      simp only
      cases (Postfix.toExpr seq).mapError Failure.expr with
      | error e => rfl
      | ok t =>
        simp only
        cases (VarName.sortChecked (Postfix.names seq)).mapError Failure.digits <;> rfl

/-- **The tokens that can be laid out** are those that have a spelling. -/
theorem exists_layout_iff {ts : List Token} :
    (∃ l : Layout, l.tokens = ts) ↔ ∀ t ∈ ts, ∃ s, t.Spelled s := by
  constructor
  · rintro ⟨l, rfl⟩ t ht
    obtain ⟨p, -, rfl⟩ := List.mem_map.1 ht
    exact ⟨p.spelling, p.spelled⟩
  · induction ts with
    | nil => exact fun _ => ⟨⟨[], [], by simp, .nil⟩, rfl⟩
    | cons t ts ih =>
      intro h
      obtain ⟨⟨s, hs⟩, hts⟩ := List.forall_mem_cons.1 h
      obtain ⟨l, rfl⟩ := ih hts
      -- With a space behind it no token runs on.
      let spaced : Layout := { l with lead := [' '], blank := by simp }
      exact ⟨spaced.cons hs fun _ => endsName_cons rfl _, rfl⟩

/-- **Neither spelling nor layout matters.**  Whatever spellings and blanks are chosen for tokens
that can be written, the text is read as these, each `and` written out, and no other text is.  So
all layouts of the same tokens compile to the same sequence, tree and names, or fail alike. -/
theorem tokenize_layout (ts : List Token) :
    ((∃ l : Layout, l.tokens = ts) ↔ ∀ t ∈ ts, ∃ s, t.Spelled s) ∧
    (∀ text : String, scan (normalize text.toList) = .ok ts ↔
      ∃ l : Layout, l.text = text ∧ l.tokens = ts) ∧
    (∀ l : Layout, l.tokens = ts → tokenize l.text = .ok (insertAnds ts)) ∧
    ∀ l m : Layout, l.tokens = ts → m.tokens = ts →
      Formula.compile m.text = (fun f => { f with text := m.text }) <$> Formula.compile l.text := by
  have htokenize (l : Layout) (hl : l.tokens = ts) : tokenize l.text = .ok (insertAnds ts) := by
    refine tokenize_eq_ok_iff.2 ⟨ts, ?_, rfl⟩
    rw [Layout.text, String.toList_ofList]
    exact hl ▸ l.lexes
  refine ⟨exists_layout_iff, fun text => ?_, htokenize, fun l m hl hm => ?_⟩
  · rw [scan_normalize_iff, lexes_iff_layout]
    constructor
    · rintro ⟨l, hchars, hl⟩
      exact ⟨l, by rw [Layout.text, hchars, String.ofList_toList], hl⟩
    · rintro ⟨l, rfl, hl⟩
      exact ⟨l, by rw [Layout.text, String.toList_ofList], hl⟩
  · refine Formula.compile_of_tokenize ?_
    rw [htokenize l hl, htokenize m hm]

/-- Two layouts of one stream: other signs, another apostrophe, and an ideographic space where the
constant would run on in the name. -/
theorem tokenize_layout_signs :
    let ts : List Token := [.op .not true, .var "a_1", .const true, .mark .prime]
    tokenize "!a_1 1'" = .ok (insertAnds ts) ∧
      tokenize "\t~ a_1\u30001\u02bc" = .ok (insertAnds ts) ∧
      Formula.compile "\t~ a_1\u30001\u02bc" =
        (fun f => { f with text := "\t~ a_1\u30001\u02bc" }) <$> Formula.compile "!a_1 1'" := by
  intro ts
  let close (g : List Char) (hg : ∀ c ∈ g, isBlank c = true) (a : Char)
      (ha : a ∈ apostrophes) : List Piece :=
    [⟨.var "a_1", "a_1".toList, g, .name (by decide), hg⟩,
      ⟨.const true, ['1'], [], .sign (by decide), by simp⟩,
      ⟨.mark .prime, [a], [], .sign ha, by simp⟩]
  let l : Layout :=
    { lead := []
      pieces := ⟨.op .not true, ['!'], [], .sign (by decide), by simp⟩ ::
        close [' '] (List.all_eq_true.1 rfl) '\'' (by decide)
      blank := by simp
      apart := by simp [close, Token.RunsOn, Token.name?, Token.isOperand] }
  let m : Layout :=
    { lead := ['\t']
      pieces := ⟨.op .not true, ['~'], [' '], .sign (by decide), by simp⟩ ::
        close ['\u3000'] (List.all_eq_true.1 rfl) '\u02bc' (by decide)
      blank := List.all_eq_true.1 rfl
      apart := by simp [close, Token.RunsOn, Token.name?, Token.isOperand] }
  obtain ⟨-, -, htokenize, hcompile⟩ := tokenize_layout ts
  exact ⟨htokenize l rfl, htokenize m rfl, hcompile l m rfl rfl⟩

end TruthTable
