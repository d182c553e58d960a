import TruthTable.Markup
import TruthTable.Proofs.Grammar.Words
import TruthTable.Proofs.Lexing

/-!
# Proofs/Words — markup in words, read back

The markup in words is a Python expression.  There names, the words of the operators and of the
constants are cut from the text alike, and a word that is reserved is no name.  Every compound
operand of the markup is in parentheses, so the order in which the operators bind, which is another
than in the input language, never comes into play.

* `Words.tokens` — the tokens of a text in words.
* `Words.value` — the value of a tree whose operators stop as early as they can.
* `Words.reads_toPython_iff` — the markup of a tree is read as the tree, and means the same.
-/

namespace TruthTable

namespace Words

/-! ## From text to tokens -/

/-- The words that are **no names**. -/
def reserved : List String :=
  ["False", "None", "True", "and", "as", "assert", "async", "await", "break", "class", "continue",
    "def", "del", "elif", "else", "except", "finally", "for", "from", "global", "if", "import",
    "in", "is", "lambda", "nonlocal", "not", "or", "pass", "raise", "return", "try", "while",
    "with", "yield"]

/-- The token of a word.  Of the reserved words only those of operators and constants have one. -/
def ofWord? (word : String) : Option Token :=
  match word with
  | "and" => some (.plain (.conn .and))
  | "or" => some (.plain (.conn .or))
  | "not" => some (.op .not true)
  | "True" => some (.const true)
  | "False" => some (.const false)
  | _ => if word ∈ reserved then none else some (.var word)

/-- The tokens of one character. -/
def ofChar? : Char → Option Token
  | '(' => some (.mark .lparen)
  | ')' => some (.mark .rparen)
  | '^' => some (.plain (.conn .xor))
  | _ => none

/-- **The tokens of a text in words**; none where something else than these stands in it. -/
def tokens : List Char → Option (List Token)
  | [] => some []
  | c :: cs =>
    if c = ' ' then tokens cs
    else match ofChar? c with
      | some t => (t :: ·) <$> tokens cs
      | none =>
        if isLetter c then do
          let t ← ofWord? (String.ofList (c :: cs.takeWhile isNameChar))
          (t :: ·) <$> tokens (cs.dropWhile isNameChar)
        else none
termination_by cs => cs.length
decreasing_by all_goals
  have := length_dropWhile_le isNameChar cs
  simp only [List.length_cons]
  omega

/-- **The text is read as the tree.** -/
def Reads (s : String) (e : Expr) : Prop :=
  ∃ ts, tokens s.toList = some ts ∧ Derives (.conn .or) ts e

/-! ## Values -/

/-- **The value of a tree in words.**  The right operand of `and` and of `or` is only looked at
where the left one leaves the value open; a variable that is needed and has no value leaves none. -/
def value (v : Valuation) : Expr → Option Bool
  | .var n => v n
  | .const b => some b
  | .not e => (!·) <$> value v e
  | .bin .and l r => do if ← value v l then value v r else return false
  | .bin .or l r => do if ← value v l then return true else value v r
  | .bin .xor l r => do return (← value v l) ^^ (← value v r)

/-- **With all variables defined the value is that of the truth function.** -/
theorem value_eq {v : Valuation} : ∀ {e : Expr}, (∀ n ∈ e.occurrences, (v n).isSome) →
    value v e = some (e.truth v.total)
  | .var n, h => by
    obtain ⟨b, hb⟩ := Option.isSome_iff_exists.1 (h n (List.mem_singleton_self n))
    rw [value, Expr.truth, Valuation.total, hb]
    rfl
  | .const b, _ => rfl
  | .not e, h => by
    rw [value, value_eq (e := e) h]
    rfl
  | .bin c l r, h => by
    obtain ⟨hl, hr⟩ := List.forall_mem_append.1 h
    have hl := value_eq hl
    have hr := value_eq hr
    cases c <;> rw [value, hl, hr, Expr.truth] <;> cases l.truth v.total <;>
      cases r.truth v.total <;> rfl

/-! ## Reading the markup -/

variable {s : String} {ts us : List Token}

/-- **What a piece of markup is read as**, in front of any other, unless a name runs on into it. -/
def ReadsAs (s : String) (ts : List Token) : Prop :=
  ∀ cs, EndsName cs → tokens (s.toList ++ cs) = (ts ++ ·) <$> tokens cs

theorem tokens_space (cs : List Char) : tokens (' ' :: cs) = tokens cs := by
  rw [tokens, if_pos rfl]

theorem tokens_sign {c : Char} {t : Token} (h : ofChar? c = some t) (cs : List Char) :
    tokens (c :: cs) = (t :: ·) <$> tokens cs := by
  have hspace : c ≠ ' ' := by
    rintro rfl
    nomatch h
  rw [tokens, if_neg hspace, h]

theorem readsAs_word {t : Token} (hs : IsIdentifier s) (h : ofWord? s = some t) :
    ReadsAs s [t] := by
  intro cs hcs
  obtain ⟨c, ds, heq, hc, hds⟩ := hs
  have hspace : c ≠ ' ' := by
    rintro rfl
    nomatch hc
  have hsign : ofChar? c = none := by
    unfold ofChar?
    split
    all_goals first | rfl | exact absurd hc (by decide)
  have hword : String.ofList (c :: ds) = s := heq ▸ String.ofList_toList
  rw [heq, List.cons_append, tokens, if_neg hspace, hsign]
  simp only [hc, if_true, hcs.takeWhile_append hds, hcs.dropWhile_append hds, hword, h]
  rfl

/-- A name that is not reserved is read as its variable. -/
theorem ofWord?_of_not_mem {n : String} (h : n ∉ reserved) : ofWord? n = some (.var n) := by
  unfold ofWord?
  split
  case h_6 => exact if_neg h
  all_goals exact absurd (by decide) h

theorem ReadsAs.paren (needed : Bool) (h : ReadsAs s ts) :
    ReadsAs (Expr.paren needed s) (parens needed ts) := by
  cases needed with
  | false => exact h
  | true =>
    intro cs _
    have hclose : EndsName (')' :: cs) := endsName_cons rfl cs
    have htext : (Expr.paren true s).toList ++ cs = '(' :: (s.toList ++ ')' :: cs) := by
      simp [Expr.paren]
    rw [htext, tokens_sign rfl, h _ hclose, tokens_sign rfl]
    cases tokens cs <;> simp [parens]

theorem ReadsAs.not (h : ReadsAs s ts) : ReadsAs ("not " ++ s) (.op .not true :: ts) := by
  intro cs hcs
  have hword : ReadsAs "not" [.op .not true] := readsAs_word (by decide) rfl
  have htext : ("not " ++ s).toList ++ cs = "not".toList ++ ' ' :: (s.toList ++ cs) := by simp
  rw [htext, hword _ (endsName_cons rfl _), tokens_space, h cs hcs]
  cases tokens cs <;> rfl

/-- **The word of a connective is read as it**, between spaces. -/
theorem tokens_connective (c : Connective) (cs : List Char) :
    tokens (' ' :: (c.word.toList ++ ' ' :: cs)) = (.plain (.conn c) :: ·) <$> tokens cs := by
  have hspace : EndsName (' ' :: cs) := endsName_cons rfl cs
  rw [tokens_space, ← tokens_space cs]
  cases c with
  | and => exact readsAs_word (s := "and") (by decide) rfl _ hspace
  | or => exact readsAs_word (s := "or") (by decide) rfl _ hspace
  | xor => exact tokens_sign rfl _

theorem ReadsAs.join {l r : String} (hl : ReadsAs l ts) (hr : ReadsAs r us) (c : Connective) :
    ReadsAs (l ++ " " ++ c.word ++ " " ++ r) (ts ++ .plain (.conn c) :: us) := by
  intro cs hcs
  have htext : (l ++ " " ++ c.word ++ " " ++ r).toList ++ cs =
      l.toList ++ ' ' :: (c.word.toList ++ ' ' :: (r.toList ++ cs)) := by simp
  rw [htext, hl _ (endsName_cons rfl _), tokens_connective, hr cs hcs]
  cases tokens cs <;> simp

/-- **The markup of a tree is read as its stream.** -/
theorem readsAs_toPython : ∀ {e : Expr},
    (∀ n ∈ e.occurrences, IsIdentifier n ∧ n ∉ reserved) → ReadsAs e.toPython e.bracketed
  | .var n, h =>
    have ⟨hident, hfree⟩ := h n (List.mem_singleton_self n)
    readsAs_word hident (ofWord?_of_not_mem hfree)
  | .const true, _ => readsAs_word (s := "True") (by decide) rfl
  | .const false, _ => readsAs_word (s := "False") (by decide) rfl
  | .not e, h => ((readsAs_toPython (e := e) h).paren (!e.isLeaf)).not
  | .bin c l r, h =>
    have ⟨hl, hr⟩ := List.forall_mem_append.1 h
    ((readsAs_toPython hl).paren (!l.isLeaf)).join ((readsAs_toPython hr).paren (!r.isLeaf)) c

/-- **The markup of a tree is read as the tree**, with no regrouping at all and as no other tree, if
its variables are identifiers that are not reserved; and where each of them has a value, the markup
has the value of the tree. -/
theorem reads_toPython_iff {e : Expr}
    (h : ∀ n ∈ e.occurrences, IsIdentifier n ∧ n ∉ reserved) (d : Expr) :
    (Reads e.toPython d ↔ d = e) ∧
    ∀ v : Valuation, Reads e.toPython d → (∀ n ∈ e.occurrences, (v n).isSome) →
      ∃ b, value v d = some b ∧ e.eval v = .ok b := by
  have htokens : tokens e.toPython.toList = some e.bracketed := by
    have hreads := readsAs_toPython h [] endsName_nil
    rw [List.append_nil, tokens] at hreads
    simpa using hreads
  have hiff : Reads e.toPython d ↔ d = e := by
    rw [Reads, htokens]
    simp only [Option.some.injEq, exists_eq_left', derives_bracketed_iff]
  refine ⟨hiff, fun v hd hv => ?_⟩
  obtain rfl := hiff.1 hd
  refine ⟨_, value_eq hv, ?_⟩
  rw [Expr.eval_eq_guard, Valuation.guard_of_isSome hv]

/-- A negation under `^` and one over it, a product to the right of a product, and a variable whose
name starts like a word. -/
theorem reads_toPython_iff_nested :
    let e : Expr := .bin .and (.bin .xor (.not (.var "A")) (.const true))
      (.bin .and (.not (.bin .xor (.var "A") (.var "x_1"))) (.var "not_"))
    e.toPython = "((not A) ^ True) and ((not (A ^ x_1)) and not_)" ∧
      (∀ d, Reads "((not A) ^ True) and ((not (A ^ x_1)) and not_)" d ↔ d = e) ∧
      value (fun _ => some false) e = some false := by
  intro e
  have he : ∀ n ∈ e.occurrences, IsIdentifier n ∧ n ∉ reserved := by decide +kernel
  have htext : e.toPython = "((not A) ^ True) and ((not (A ^ x_1)) and not_)" := by decide +kernel
  obtain ⟨b, hvalue, heval⟩ := (reads_toPython_iff he e).2 (fun _ => some false)
    ((reads_toPython_iff he e).1.2 rfl) fun _ _ => rfl
  have hfalse : e.eval (fun _ => some false) = .ok false := rfl
  obtain rfl := Except.ok.inj (heval.symm.trans hfalse)
  exact ⟨htext, fun d => htext ▸ (reads_toPython_iff he d).1, hvalue⟩

end Words

end TruthTable
