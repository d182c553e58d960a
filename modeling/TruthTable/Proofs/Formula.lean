import TruthTable.Formula
import TruthTable.Proofs.DigitLimit
import TruthTable.Proofs.Evaluation

/-!
# Proofs/Formula — what a compiled text holds, and why a text has no formula

The parts of a formula belong together: the sequence is the tree's, the names are the tree's
variables in natural order.  Without a formula, a text is refused, or it spells a tree one of whose
variables is past the digit limit.

* `compile_eq_ok_iff`, `compile_eq_error_iff` — the two ends of a compilation.
* `CompiledFrom.eval_eq_truth` — a formula has the value of its tree wherever its variables have
  values.
-/

namespace TruthTable.Formula

/-! ## The parts of a formula -/

/-- **The parts of a formula of the text.** -/
structure CompiledFrom (text : String) (f : Formula) : Prop where
  text_eq : f.text = text
  tokens_eq : tokenize text = .ok f.tokens
  sequence_eq : Postfix.ofInfix f.tokens = .ok f.sequence
  tree_eq : Postfix.toExpr f.sequence = .ok f.tree
  withinLimit : ∀ n ∈ f.tree.occurrences, VarName.WithinLimit n
  names_eq : f.names = VarName.sort f.tree.occurrences

/-- **A compilation gives exactly the formula of its text.** -/
theorem compile_eq_ok_iff {text : String} {f : Formula} :
    compile text = .ok f ↔ CompiledFrom text f := by
  simp only [compile, bind_eq_ok_iff, mapError_eq_ok_iff, VarName.sortChecked_eq_ok_iff]
  constructor
  · rintro ⟨tokens, htokens, sequence, hsequence, tree, htree, names, ⟨hlimit, rfl⟩, hf⟩
    obtain rfl := Except.ok.inj hf
    rw [Postfix.names_eq_of_toExpr htree] at hlimit
    exact ⟨rfl, htokens, hsequence, htree, hlimit,
      congrArg VarName.sort (Postfix.names_eq_of_toExpr htree)⟩
  · rintro ⟨rfl, htokens, hsequence, htree, hlimit, hnames⟩
    rw [← Postfix.names_eq_of_toExpr htree] at hlimit hnames
    refine ⟨_, htokens, _, hsequence, _, htree, _, ⟨hlimit, rfl⟩, ?_⟩
    rw [← hnames]
    rfl

namespace CompiledFrom

variable {text : String} {f : Formula}

/-- **The names are the variables of the tree.** -/
theorem mem_names_iff (h : CompiledFrom text f) {n : String} :
    n ∈ f.names ↔ n ∈ f.tree.occurrences := by
  rw [h.names_eq, VarName.mem_sort]

theorem eval_eq (h : CompiledFrom text f) (v : Valuation) : f.eval v = f.tree.eval v :=
  Postfix.eval_eq_of_toExpr h.tree_eq v

/-- **A formula whose variables all have a value has the value of its tree.** -/
theorem eval_eq_truth (h : CompiledFrom text f) {v : Valuation} {w : String → Bool}
    (hv : ∀ n ∈ f.names, v n = some (w n)) : f.eval v = .ok (f.tree.truth w) := by
  rw [h.eval_eq]
  exact Expr.eval_eq_truth fun n hn => hv n (h.mem_names_iff.2 hn)

end CompiledFrom

/-! ## Texts without a formula -/

/-- **The text spells the tree**, the digit limit aside. -/
def Spells (text : String) (e : Expr) : Prop :=
  ∃ tokens sequence, tokenize text = .ok tokens ∧ Postfix.ofInfix tokens = .ok sequence ∧
    Postfix.toExpr sequence = .ok e

theorem CompiledFrom.spells {text : String} {f : Formula} (h : CompiledFrom text f) :
    Spells text f.tree :=
  ⟨_, _, h.tokens_eq, h.sequence_eq, h.tree_eq⟩

/-- A text spells one tree at most. -/
theorem Spells.unique {text : String} {d e : Expr} : Spells text d → Spells text e → d = e
  | ⟨_, _, ht, hs, hb⟩, ⟨_, _, ht', hs', hb'⟩ => by
    obtain rfl := Except.ok.inj (ht.symm.trans ht')
    obtain rfl := Except.ok.inj (hs.symm.trans hs')
    exact Except.ok.inj (hb.symm.trans hb')

/-- **A text that spells a tree has a formula of it** if the variables are within the digit
limit. -/
theorem Spells.exists_compiledFrom {text : String} {e : Expr} (h : Spells text e)
    (hlimit : ∀ n ∈ e.occurrences, VarName.WithinLimit n) :
    ∃ f, CompiledFrom text f ∧ f.tree = e := by
  obtain ⟨tokens, sequence, ht, hs, hb⟩ := h
  exact ⟨{ text, tokens, sequence, names := VarName.sort e.occurrences, tree := e },
    ⟨rfl, ht, hs, hb, hlimit, rfl⟩, rfl⟩

/-- **The text is refused**: as it is cut into tokens, as these are put in order, or as the tree is
built from them. -/
inductive Refused (text : String) (e : ExprError) : Prop
  | lexing (h : tokenize text = .error e)
  | ordering {tokens} (ht : tokenize text = .ok tokens) (h : Postfix.ofInfix tokens = .error e)
  | building {tokens sequence} (ht : tokenize text = .ok tokens)
    (hs : Postfix.ofInfix tokens = .ok sequence) (h : Postfix.toExpr sequence = .error e)

/-- **A text without a formula** is refused, or spells a tree with a name past the digit limit. -/
theorem compile_eq_error_iff {text : String} {x : Failure} :
    compile text = .error x ↔ (∃ e, Refused text e ∧ x = .expr e) ∨
      ∃ e d, Spells text e ∧ VarName.sortChecked e.occurrences = .error d ∧ x = .digits d := by
  simp only [compile, bind_eq_error_iff, mapError_eq_error_iff, mapError_eq_ok_iff]
  constructor
  · rintro (⟨e, h, rfl⟩ | ⟨tokens, ht, ⟨e, h, rfl⟩ | ⟨sequence, hs, ⟨e, h, rfl⟩ | ⟨tree, hb, h⟩⟩⟩)
    · exact .inl ⟨e, .lexing h, rfl⟩
    · exact .inl ⟨e, .ordering ht h, rfl⟩
    · exact .inl ⟨e, .building ht hs h, rfl⟩
    · obtain ⟨d, h, rfl⟩ | ⟨_, _, h⟩ := h
      · rw [Postfix.names_eq_of_toExpr hb] at h
        exact .inr ⟨tree, d, ⟨_, _, ht, hs, hb⟩, h, rfl⟩
      · nomatch h
  · rintro (⟨e, h | ⟨ht, h⟩ | ⟨ht, hs, h⟩, rfl⟩ | ⟨tree, d, ⟨tokens, sequence, ht, hs, hb⟩, h, rfl⟩)
    · exact .inl ⟨e, h, rfl⟩
    · exact .inr ⟨_, ht, .inl ⟨e, h, rfl⟩⟩
    · exact .inr ⟨_, ht, .inr ⟨_, hs, .inl ⟨e, h, rfl⟩⟩⟩
    · rw [← Postfix.names_eq_of_toExpr hb] at h
      exact .inr ⟨_, ht, .inr ⟨_, hs, .inr ⟨_, hb, .inl ⟨d, h, rfl⟩⟩⟩⟩

/-- A compilation is refused as its text is. -/
theorem compile_eq_expr_iff {text : String} {e : ExprError} :
    compile text = .error (.expr e) ↔ Refused text e := by
  rw [compile_eq_error_iff]
  constructor
  · rintro (⟨d, h, hd⟩ | ⟨_, _, _, _, hd⟩)
    · exact Failure.expr.inj hd ▸ h
    · nomatch hd
  · exact fun h => .inl ⟨e, h, rfl⟩

/-- The digit limit stops a compilation at a variable past it. -/
theorem exists_compile_digits_iff {text : String} :
    (∃ d, compile text = .error (.digits d)) ↔
      ∃ t, Spells text t ∧ ∃ n ∈ t.occurrences, ¬ VarName.WithinLimit n := by
  simp only [compile_eq_error_iff, ← VarName.exists_sortChecked_error_iff]
  constructor
  · rintro ⟨d, ⟨_, _, h⟩ | ⟨t, d', ht, h, _⟩⟩
    · nomatch h
    · exact ⟨t, ht, d', h⟩
  · rintro ⟨t, ht, d, h⟩
    exact ⟨d, .inr ⟨t, d, ht, h, rfl⟩⟩

/-- A text that spells a tree is not refused. -/
theorem Spells.not_refused {text : String} {t : Expr} {e : ExprError} :
    Spells text t → ¬ Refused text e
  | ⟨_, _, ht, _, _⟩, .lexing h => nomatch ht.symm.trans h
  | ⟨_, _, ht, hs, _⟩, .ordering ht' h => by
    obtain rfl := Except.ok.inj (ht.symm.trans ht')
    nomatch hs.symm.trans h
  | ⟨_, _, ht, hs, hb⟩, .building ht' hs' h => by
    obtain rfl := Except.ok.inj (ht.symm.trans ht')
    obtain rfl := Except.ok.inj (hs.symm.trans hs')
    nomatch hb.symm.trans h

/-- **A text spells a tree or is refused.** -/
theorem spells_or_refused (text : String) : (∃ t, Spells text t) ∨ ∃ e, Refused text e := by
  cases ht : tokenize text with
  | error e => exact .inr ⟨e, .lexing ht⟩
  | ok ts =>
    cases hs : Postfix.ofInfix ts with
    | error e => exact .inr ⟨e, .ordering ht hs⟩
    | ok seq =>
      cases hb : Postfix.toExpr seq with
      | error e => exact .inr ⟨e, .building ht hs hb⟩
      | ok t => exact .inl ⟨t, ts, seq, ht, hs, hb⟩

end TruthTable.Formula
