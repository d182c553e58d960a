import Mathlib.Data.List.Chain
import TruthTable.Token.Lexer
import TruthTable.Proofs.Outcome
import TruthTable.Proofs.Grammar.Alternation

/-!
# Proofs/Stream — the token streams of texts

Not every list of tokens is the stream of a text: the scan knows negation only in front of its
operand and connectives only between theirs, and no connective is left unwritten.

* `lexical_of_tokenize` — the tokens are as a text is read.
* `isChain_of_tokenize` — no two neighbours leave a connective unwritten.
-/

namespace TruthTable

/-! ## The scan -/

theorem lexical_of_ofChar? {c : Char} {t : Token} (h : Token.ofChar? c = some t) :
    t.lexical = true := by
  unfold Token.ofChar? at h
  split at h <;> cases h <;> rfl

/-- **The scan reads tokens as they stand in a text.** -/
theorem lexical_of_scanFrom {pos : Nat} {cs : List Char} {ts : List Token}
    (h : scanFrom pos cs = .ok ts) : ∀ t ∈ ts, t.lexical = true := by
  fun_induction scanFrom pos cs generalizing ts with
  | case1 =>
    obtain rfl := Except.ok.inj h
    simp
  | case2 pos cs ih => exact ih h
  | case3 pos c cs _ t ht ih =>
    obtain ⟨us, hus, rfl⟩ := map_eq_ok_iff.1 h
    exact List.forall_mem_cons.2 ⟨lexical_of_ofChar? ht, ih hus⟩
  | case4 pos c cs _ _ _ ih =>
    obtain ⟨us, hus, rfl⟩ := map_eq_ok_iff.1 h
    exact List.forall_mem_cons.2 ⟨rfl, ih hus⟩
  | case5 => nomatch h

/-- A scan is stopped by a character that starts no token. -/
theorem scanFrom_eq_error {pos : Nat} {cs : List Char} {e : ExprError}
    (h : scanFrom pos cs = .error e) : ∃ p c, e = .unexpectedChar p c := by
  fun_induction scanFrom pos cs with
  | case1 => nomatch h
  | case2 pos cs ih => exact ih h
  | case3 pos c cs _ t _ ih => exact ih (map_eq_error_iff.1 h)
  | case4 pos c cs _ _ _ ih => exact ih (map_eq_error_iff.1 h)
  | case5 pos c cs => exact ⟨_, _, (Except.error.inj h).symm⟩

/-! ## Unwritten connectives -/

theorem lexical_insertAnds : ∀ {ts : List Token}, (∀ t ∈ ts, t.lexical = true) →
    ∀ t ∈ insertAnds ts, t.lexical = true
  | [], h => by rwa [insertAnds_nil]
  | [t], h => by rwa [insertAnds_singleton]
  | t :: u :: ts, h => by
    obtain ⟨ht, hrest⟩ := List.forall_mem_cons.1 h
    have ih := lexical_insertAnds hrest
    rw [insertAnds]
    split
    · exact List.forall_mem_cons.2 ⟨ht, List.forall_mem_cons.2 ⟨rfl, ih⟩⟩
    · exact List.forall_mem_cons.2 ⟨ht, ih⟩

/-- **Every unwritten connective is filled in.** -/
theorem isChain_insertAnds : ∀ ts : List Token,
    (insertAnds ts).IsChain fun t u => t.junction u = false
  | [] => by simp
  | [t] => by simp
  | t :: u :: ts => by
    have ih := isChain_insertAnds (u :: ts)
    obtain ⟨us, hus⟩ : ∃ us, insertAnds (u :: ts) = u :: us :=
      List.head?_eq_some_iff.1 (head?_insertAnds (u :: ts))
    rw [insertAnds]
    rw [hus] at ih ⊢
    split
    · exact .cons_cons (Bool.and_false _) (.cons_cons rfl ih)
    · rename_i hjunction
      exact .cons_cons (Bool.not_eq_true _ ▸ hjunction) ih

/-- Where no connective is left unwritten, none is filled in. -/
theorem insertAnds_eq_self : ∀ {ts : List Token},
    (ts.IsChain fun t u => t.junction u = false) → insertAnds ts = ts
  | [], _ => insertAnds_nil
  | [t], _ => insertAnds_singleton t
  | t :: u :: ts, h => by
    obtain ⟨hjunction, hrest⟩ := List.isChain_cons_cons.1 h
    rw [insertAnds, if_neg (by simp [hjunction]), insertAnds_eq_self hrest]

/-! ## The stream of a text -/

variable {text : String} {ts : List Token}

/-- **The tokens of a text are as a text is read.** -/
theorem lexical_of_tokenize (h : tokenize text = .ok ts) : ∀ t ∈ ts, t.lexical = true := by
  obtain ⟨us, hus, rfl⟩ := map_eq_ok_iff.1 h
  exact lexical_insertAnds (lexical_of_scanFrom hus)

/-- **No two neighbours leave a connective unwritten.** -/
theorem isChain_of_tokenize (h : tokenize text = .ok ts) :
    ts.IsChain fun t u => t.junction u = false := by
  obtain ⟨us, -, rfl⟩ := map_eq_ok_iff.1 h
  exact isChain_insertAnds us

end TruthTable
