import Mathlib.Algebra.BigOperators.Group.Finset.Piecewise
import Mathlib.Algebra.BigOperators.Group.Finset.Powerset
import TruthTable.Proofs.Equivalence
import TruthTable.Proofs.NaturalOrder

/-!
# Proofs/Disagreement — the rows that differ are the valuations at which two formulas disagree

A valuation of some variables is the set of those that it makes true.  The enumeration of the
assignments runs through these sets, each once, so a count of its rows is a count of valuations.

* `Assignment.countP_all` — counting along the enumeration is counting sets of variables.
* `Formula.disagreements` — the valuations of the variables at which two formulas differ.
* `Table.differCount_eq` — their number is the number of rows that differ.
* `Formula.disagreements_eq_empty_iff` — there are none exactly for equivalent formulas.
-/

namespace TruthTable

/-- The valuation that makes the variables of a set true, and every other false. -/
def Valuation.ofTrue (s : Finset String) : Valuation := fun n => some (decide (n ∈ s))

/-! ## Counting assignments -/

namespace Assignment

/-- **The assignment that makes the names of a set true.** -/
def ofTrue (xs : List String) (s : Finset String) : Assignment :=
  xs.map fun n => (n, decide (n ∈ s))

theorem ofTrue_cons (x : String) (xs : List String) (s : Finset String) :
    ofTrue (x :: xs) s = (x, decide (x ∈ s)) :: ofTrue xs s := rfl

/-- A name that is not listed has no part in the assignment. -/
theorem ofTrue_insert {x : String} {xs : List String} (hx : x ∉ xs) (s : Finset String) :
    ofTrue xs (insert x s) = ofTrue xs s :=
  List.map_congr_left fun n hn => by
    have hne : n ≠ x := fun h => hx (h ▸ hn)
    simp only [Finset.mem_insert, hne, false_or]

/-- **Counting along the enumeration is counting sets of names.** -/
theorem countP_all (p : Assignment → Bool) : ∀ {xs : List String}, xs.Nodup →
    (all xs).countP p = (xs.toFinset.powerset.filter fun s => p (ofTrue xs s)).card
  | [], _ => by
    cases h : p [] <;> simp [all, ofTrue, h]
  | x :: xs, hnodup => by
    obtain ⟨hx, hxs⟩ := List.nodup_cons.1 hnodup
    have hx' : x ∉ xs.toFinset := fun h => hx (List.mem_toFinset.1 h)
    -- the sets without the first name are the first half of the enumeration
    have hfalse : ∀ s ∈ xs.toFinset.powerset, ofTrue (x :: xs) s = (x, false) :: ofTrue xs s := by
      intro s hs
      have hxs : x ∉ s := fun h => hx' (Finset.mem_powerset.1 hs h)
      rw [ofTrue_cons, decide_eq_false hxs]
    have htrue (s : Finset String) :
        ofTrue (x :: xs) (insert x s) = (x, true) :: ofTrue xs s := by
      rw [ofTrue_cons, ofTrue_insert hx, decide_eq_true (Finset.mem_insert_self x s)]
    rw [all, List.countP_append, List.countP_map, List.countP_map, countP_all _ hxs,
      countP_all _ hxs, List.toFinset_cons, Finset.card_filter, Finset.card_filter,
      Finset.card_filter, Finset.sum_powerset_insert hx']
    simp only [htrue, Function.comp_apply]
    exact congrArg (· + _) (Finset.sum_congr rfl fun s hs => by rw [hfalse s hs])

/-- **The names have the values that the set gives them**; a name that is not listed is not in the
set either. -/
theorem value?_ofTrue_getD {xs : List String} {s : Finset String} (hs : s ⊆ xs.toFinset)
    (n : String) : ((ofTrue xs s).value? n).getD false = decide (n ∈ s) := by
  by_cases hn : n ∈ xs
  · rw [ofTrue, value?_map _ hn, Option.getD_some]
  · have hnone : (ofTrue xs s).value? n = none := by
      refine Option.not_isSome_iff_eq_none.1 fun hsome => hn ?_
      simpa [ofTrue] using isSome_value?_iff.1 hsome
    have hns : n ∉ s := fun h => hn (List.mem_toFinset.1 (hs h))
    rw [hnone, Option.getD_none, decide_eq_false hns]

end Assignment

/-! ## Where formulas disagree -/

/-- **The valuations at which two formulas disagree**: the sets of their variables that, made true,
give the formulas different values. -/
def Formula.disagreements (f g : Formula) : Finset (Finset String) :=
  (union [f, g]).toFinset.powerset.filter fun s => f.eval (.ofTrue s) ≠ g.eval (.ofTrue s)

variable {text1 text2 : String} {f g : Formula}

namespace Table

/-- The row of a set of variables differs exactly where the formulas disagree. -/
theorem same_rowOf_ofTrue_iff (hf : f.CompiledFrom text1) (hg : g.CompiledFrom text2)
    {xs : List String} {s : Finset String} (hs : s ⊆ xs.toFinset) :
    (rowOf f g (.ofTrue xs s)).same = true ↔ f.eval (.ofTrue s) = g.eval (.ofTrue s) := by
  have hv (n : String) : Valuation.ofTrue s n = some (decide (n ∈ s)) := rfl
  rw [hf.eval_eq_truth fun n _ => hv n, hg.eval_eq_truth fun n _ => hv n, Except.ok.injEq, Row.same,
    rowOf, beq_iff_eq]
  simp only [Assignment.value?_ofTrue_getD hs]

/-- **The number of rows that differ** is the number of valuations at which the formulas
disagree. -/
theorem differCount_eq (hf : f.CompiledFrom text1) (hg : g.CompiledFrom text2) :
    differCount ((Assignment.all (Formula.union [f, g])).map (rowOf f g)) =
      (f.disagreements g).card := by
  have hnodup : (Formula.union [f, g]).Nodup := VarName.nodup_sort _
  rw [differCount, List.countP_map, Assignment.countP_all _ hnodup, Formula.disagreements]
  refine congrArg Finset.card (Finset.filter_congr fun s hs => ?_)
  rw [Function.comp_apply, Bool.not_eq_true', ← Bool.not_eq_true, ne_eq, not_iff_not]
  exact same_rowOf_ofTrue_iff hf hg (Finset.mem_powerset.1 hs)

/-- No row differs exactly where all are the same. -/
theorem differCount_eq_zero_iff {rows : List Row} :
    differCount rows = 0 ↔ ∀ r ∈ rows, r.same = true := by
  simp [differCount, List.countP_eq_zero]

end Table

/-- **Formulas disagree nowhere** exactly if they are equivalent over their variables. -/
theorem Formula.disagreements_eq_empty_iff (hf : f.CompiledFrom text1) (hg : g.CompiledFrom text2) :
    f.disagreements g = ∅ ↔ EquivalentOver (union [f, g]) f g := by
  rw [← Finset.card_eq_zero, ← Table.differCount_eq hf hg, Table.differCount_eq_zero_iff,
    Table.forall_same_iff hf hg, equivalentOver_iff hf hg]

end TruthTable
