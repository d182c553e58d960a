import TruthTable.Proofs.Typeset

/-!
# Proofs/WrittenForms — the text and the markup tell the same trees apart

The text writes a negation behind its operand, in parentheses where a connective is negated; the
markup draws a bar, under which nothing needs parentheses.  Each form can be read back, up to the
way in which chains of one connective are nested, and neither shows how they are.  So the two forms
are alike in what they show, though nothing of the one is derived from the other.

* `Expr.toText_eq_iff`, `Expr.toLatex_eq_iff` — trees with the same text, and with the same markup.
* `Expr.leftNest_eq_leftNest_iff` — trees that rotations make the same of.
* `Expr.toLatex_eq_iff_toText_eq` — they are the same trees.
-/

namespace TruthTable.Expr

open Relation

variable {d e : Expr}

/-- **Trees have the same text** exactly if they are the same with their chains nested to the
left. -/
theorem toText_eq_iff (hd : ∀ n ∈ d.occurrences, IsIdentifier n)
    (he : ∀ n ∈ e.occurrences, IsIdentifier n) : d.toText = e.toText ↔ d.leftNest = e.leftNest := by
  constructor
  · intro h
    have hspells : Formula.Spells e.toText d.leftNest := h ▸ Formula.spells_toText hd
    exact hspells.unique (Formula.spells_toText he)
  · intro h
    rw [← toText_leftNest d, h, toText_leftNest]

/-- **Trees have the same markup** exactly if they are the same with their chains nested to the
left. -/
theorem toLatex_eq_iff (hd : ∀ n ∈ d.occurrences, IsIdentifier n)
    (he : ∀ n ∈ e.occurrences, IsIdentifier n) :
    d.toLatex 0 = e.toLatex 0 ↔ d.leftNest = e.leftNest := by
  constructor
  · intro h
    have hspells : Formula.Spells (Latex.readBack (e.toLatex 0)) d.leftNest :=
      h ▸ Latex.spells_readBack_toLatex hd
    exact hspells.unique (Latex.spells_readBack_toLatex he)
  · intro h
    rw [← toLatex_leftNest d, h, toLatex_leftNest]

/-- **Rotations make the same of two trees** if they lead to one tree at all. -/
theorem leftNest_eq_leftNest_iff :
    d.leftNest = e.leftNest ↔ ∃ f, ReflTransGen Rotates d f ∧ ReflTransGen Rotates e f := by
  constructor
  · intro h
    exact ⟨e.leftNest, h ▸ reflTransGen_leftNest d, reflTransGen_leftNest e⟩
  · rintro ⟨f, hd, he⟩
    rw [leftNest_eq_of_reflTransGen hd, leftNest_eq_of_reflTransGen he]

/-- **The text and the markup tell the same trees apart**, if the variables are identifiers: two
trees share the one if and only if they share the other, and both exactly if they are the same once
all chains of one connective are rotated to the left.  Then they have the same variables and the
same value under every valuation. -/
theorem toLatex_eq_iff_toText_eq (hd : ∀ n ∈ d.occurrences, IsIdentifier n)
    (he : ∀ n ∈ e.occurrences, IsIdentifier n) :
    (d.toLatex 0 = e.toLatex 0 ↔ d.toText = e.toText) ∧
    (d.toText = e.toText ↔ d.leftNest = e.leftNest) ∧
    (d.leftNest = e.leftNest ↔ ∃ f, ReflTransGen Rotates d f ∧ ReflTransGen Rotates e f) ∧
    (d.toText = e.toText → d.occurrences = e.occurrences ∧ ∀ v, d.eval v = e.eval v) := by
  have htext := toText_eq_iff hd he
  refine ⟨(toLatex_eq_iff hd he).trans htext.symm, htext, leftNest_eq_leftNest_iff, fun h => ?_⟩
  have hnest := htext.1 h
  constructor
  · rw [← occurrences_leftNest d, hnest, occurrences_leftNest]
  · intro v
    rw [← eval_leftNest v d, hnest, eval_leftNest]

/-- Sums nested to the right and to the left under a negation share both forms; a sum under the
product and a product under the sum share neither. -/
theorem toLatex_eq_iff_toText_eq_nested :
    let a : Expr := .var "A"
    let b : Expr := .var "B_2"
    let right : Expr := .not (.bin .or a (.bin .or (.not b) (.const true)))
    let left : Expr := .not (.bin .or (.bin .or a (.not b)) (.const true))
    right.toText = "(A+B_2'+1)'" ∧
      right.toLatex 0 = "\\overline\x7bA + \\overline\x7bB_2\x7d + 1\x7d" ∧
      left.toLatex 0 = right.toLatex 0 ∧ (∀ v, left.eval v = right.eval v) ∧
      (Expr.bin .and a (.bin .or a b)).toLatex 0 ≠ (Expr.bin .or (.bin .and a a) b).toLatex 0 := by
  intro a b right left
  have hright : ∀ n ∈ right.occurrences, IsIdentifier n := by decide +kernel
  have hleft : ∀ n ∈ left.occurrences, IsIdentifier n := by decide +kernel
  have hproduct : ∀ n ∈ (Expr.bin .and a (.bin .or a b)).occurrences, IsIdentifier n := by
    decide +kernel
  have hsum : ∀ n ∈ (Expr.bin .or (.bin .and a a) b).occurrences, IsIdentifier n := by
    decide +kernel
  obtain ⟨hlatex, htext, -, hvalue⟩ := toLatex_eq_iff_toText_eq hleft hright
  have hsame : left.toText = right.toText := htext.2 (by decide +kernel)
  obtain ⟨hlatex', htext', -, -⟩ := toLatex_eq_iff_toText_eq hproduct hsum
  refine ⟨by decide +kernel, by decide +kernel, hlatex.2 hsame, (hvalue hsame).2, fun h => ?_⟩
  exact absurd (htext'.1 (hlatex'.1 h)) (by decide +kernel)

end TruthTable.Expr
