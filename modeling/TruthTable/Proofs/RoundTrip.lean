import TruthTable.Proofs.Acceptance
import TruthTable.Proofs.Lexing
import TruthTable.Proofs.Grammar.Notation

/-!
# Proofs/RoundTrip — the text of a tree compiles to the tree

The printer leaves a pair of parentheses out exactly where precedence makes up for it, also to the
right of the same connective.  So a printed text loses nothing of its tree but how chains of one
connective are nested.

* `lexes_toText` — the text is read as the stream of the tree.
* `compile_toText` — it compiles to the tree with its chains nested to the left.
-/

namespace TruthTable

variable {cs ds : List Char} {ts us : List Token}

/-! ## Reading what is printed -/

/-- Parentheses are printed where the stream has them. -/
theorem Lexes.paren {s : String} (needed : Bool) (h : Lexes s.toList ts) :
    Lexes (Expr.paren needed s).toList (parens needed ts) := by
  cases needed with
  | false => exact h
  | true => simpa [Expr.paren, parens] using h.group

/-- The sign of a connective is read as the connective, and no name runs on into it. -/
theorem Lexes.sign_conn (h : Lexes cs ts) : ∀ c : Connective,
    EndsName (c.sign.toList ++ cs) ∧ Lexes (c.sign.toList ++ cs) (.plain (.conn c) :: ts)
  | .and | .xor | .or => ⟨endsName_cons rfl cs, .sign rfl h⟩

/-- **The text of a tree is read as its stream.** -/
theorem lexes_toText : ∀ {e : Expr}, (∀ n ∈ e.occurrences, IsIdentifier n) →
    Lexes e.toText.toList (e.stream .prime)
  | .var n, h => (h n (List.mem_singleton_self n)).lexes
  | .const false, _ | .const true, _ => .sign rfl .nil
  | .not e, h => by
    have he := (lexes_toText (e := e) h).paren (!e.takesPrime)
    rw [Expr.toText, String.toList_append]
    exact he.prime
  | .bin c l r, h => by
    obtain ⟨hl, hr⟩ := List.forall_mem_append.1 h
    have hl := (lexes_toText hl).paren (decide (l.precedence < c.precedence))
    have hr := (lexes_toText hr).paren (decide (r.precedence < c.precedence))
    obtain ⟨hends, hright⟩ := hr.sign_conn c
    rw [Expr.toText, String.toList_append, String.toList_append, List.append_assoc]
    exact hl.append hends hright

namespace Formula

open Relation

/-- **A text that is read as a derivable stream spells its tree.** -/
theorem spells_of_derives {text : String} {e : Expr} (hlexes : Lexes text.toList ts)
    (h : Derives (.conn .or) ts e) : Spells text e := by
  have hself : insertAnds ts = ts := Derivable.insertAnds_eq_self ⟨e, h⟩
  exact ⟨ts, e.postorder, tokenize_eq_ok_iff.2 ⟨ts, hlexes, hself⟩, h.ofInfix,
    Postfix.toExpr_postorder e⟩

/-- **The text of a tree spells it**, its chains nested to the left. -/
theorem spells_toText {e : Expr} (h : ∀ n ∈ e.occurrences, IsIdentifier n) :
    Spells e.toText e.leftNest :=
  spells_of_derives (lexes_toText h) (e.derives_stream .prime)

/-- **A text that spells a tree nested to the left** compiles to what rotations make of the tree,
with the same variables and the same value. -/
theorem Spells.exists_compile_leftNest {text : String} {e : Expr} (h : Spells text e.leftNest)
    (hlimit : ∀ n ∈ e.occurrences, VarName.WithinLimit n) :
    ∃ f, compile text = .ok f ∧
      (f.tree = e.leftNest ∧ ReflTransGen Expr.Rotates e f.tree ∧ f.tree.LeftNested) ∧
      (f.names = VarName.sort e.occurrences ∧ f.tree.occurrences = e.occurrences) ∧
      ∀ v, f.eval v = e.eval v ∧ f.tree.eval v = e.eval v := by
  have hlimit' : ∀ n ∈ e.leftNest.occurrences, VarName.WithinLimit n := by
    rwa [Expr.occurrences_leftNest]
  obtain ⟨f, hf, htree⟩ := h.exists_compiledFrom hlimit'
  have heval (v : Valuation) : f.tree.eval v = e.eval v := by rw [htree, Expr.eval_leftNest]
  refine ⟨f, compile_eq_ok_iff.2 hf, ⟨htree, Expr.leftNest_eq_iff.1 htree.symm⟩, ⟨?_, ?_⟩,
    fun v => ⟨(hf.eval_eq v).trans (heval v), heval v⟩⟩
  · rw [hf.names_eq, htree, Expr.occurrences_leftNest]
  · rw [htree, Expr.occurrences_leftNest]

/-- **The text of a tree compiles to the tree**, if its variables are identifiers within the digit
limit: every chain of one connective is turned to the left, by rotations, and nothing else changes.
So the formula has the variables, the value and the text of the tree, and its tree is the same where
no chain is nested to the right. -/
theorem compile_toText {e : Expr} (hname : ∀ n ∈ e.occurrences, IsIdentifier n)
    (hlimit : ∀ n ∈ e.occurrences, VarName.WithinLimit n) :
    ∃ f, compile e.toText = .ok f ∧
      (f.tree = e.leftNest ∧ ReflTransGen Expr.Rotates e f.tree ∧ f.tree.LeftNested) ∧
      (f.names = VarName.sort e.occurrences ∧ f.tree.occurrences = e.occurrences) ∧
      (∀ v, f.eval v = e.eval v ∧ f.tree.eval v = e.eval v) ∧
      f.tree.toText = e.toText ∧ (f.tree = e ↔ e.LeftNested) := by
  obtain ⟨f, hf, htree, hnames, heval⟩ := (spells_toText hname).exists_compile_leftNest hlimit
  refine ⟨f, hf, htree, hnames, heval, ?_, ?_⟩
  · rw [htree.1, Expr.toText_leftNest]
  · rw [htree.1, Expr.leftNest_eq_self_iff]

/-- Chains nested to the right, one of them under an apostrophe, and a product that needs no
parentheses. -/
theorem compile_toText_nested_right :
    let e : Expr := .bin .or (.var "A") (.bin .or
      (.bin .and (.var "B_1") (.not (.not (.var "c"))))
      (.not (.bin .xor (.const true) (.bin .xor (.var "A") (.var "c")))))
    e.toText = "A+B_1*c''+(1^A^c)'" ∧ ∃ f, compile e.toText = .ok f ∧
      f.tree = .bin .or (.bin .or (.var "A") (.bin .and (.var "B_1") (.not (.not (.var "c")))))
        (.not (.bin .xor (.bin .xor (.const true) (.var "A")) (.var "c"))) ∧
      f.names = ["A", "B_1", "c"] := by
  intro e
  have hname : ∀ n ∈ e.occurrences, IsIdentifier n := by decide +kernel
  have hlimit : ∀ n ∈ e.occurrences, VarName.WithinLimit n := by decide +kernel
  obtain ⟨f, hf, htree, hnames, -⟩ := compile_toText hname hlimit
  exact ⟨by decide +kernel, f, hf, htree.1.trans rfl, hnames.1.trans (by decide +kernel)⟩

end Formula

end TruthTable
