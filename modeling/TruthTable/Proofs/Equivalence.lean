import TruthTable.Table
import TruthTable.Proofs.Enumeration
import TruthTable.Proofs.Formula

/-!
# Proofs/Equivalence — the table of two formulas decides whether they are equivalent

The table lists every assignment to the variables of both formulas.  A formula's value depends on
nothing but the values of its own variables, so the rows speak for every mapping that gives these
variables a value, whatever else it holds and of whatever kind its values are.

* `Table.Lists` — rows that list every assignment with the values of both formulas.
* `Formula.EquivalentOver` — equivalence under every mapping.
* `Table.compare_eq_ok` — within the limit the comparison gives such rows; nothing in it can fail.
* `Table.compare_decides` — the rows are all the same exactly for equivalent formulas.
-/

namespace TruthTable

namespace Formula

variable {text text1 text2 : String} {f g : Formula}

theorem mem_union {n : String} : n ∈ union [f, g] ↔ n ∈ f.names ∨ n ∈ g.names := by
  simp [union]

/-- A formula whose variables are all defined has a value, and no other variable matters. -/
theorem CompiledFrom.eval_of_isSome (h : f.CompiledFrom text) {v : Valuation}
    (hv : ∀ n ∈ f.names, (v n).isSome) :
    f.eval v = .ok (f.tree.truth fun n => (v n).getD false) :=
  h.eval_eq_truth fun n hn => by
    obtain ⟨b, hb⟩ := Option.isSome_iff_exists.1 (hv n hn)
    simp [hb]

/-- **Formulas equivalent over some columns**: every mapping that defines at least the columns gives
both a value, and the same one. -/
def EquivalentOver (columns : List String) (f g : Formula) : Prop :=
  ∀ (α : Type) (truth : α → Bool) (values : String → Option α),
    (∀ n ∈ columns, (values n).isSome) →
      ∃ b, f.eval (.ofValues truth values) = .ok b ∧ g.eval (.ofValues truth values) = .ok b

/-- **Formulas are equivalent over their variables** when their trees have one truth function. -/
theorem equivalentOver_iff (hf : f.CompiledFrom text1) (hg : g.CompiledFrom text2) :
    EquivalentOver (union [f, g]) f g ↔ ∀ w, f.tree.truth w = g.tree.truth w := by
  constructor
  · intro h w
    have hw (n : String) : Valuation.ofValues id (fun n => some (w n)) n = some (w n) := rfl
    obtain ⟨b, h1, h2⟩ := h Bool id (fun n => some (w n)) fun _ _ => rfl
    rw [hf.eval_eq_truth fun n _ => hw n] at h1
    rw [hg.eval_eq_truth fun n _ => hw n] at h2
    rw [Except.ok.inj h1, Except.ok.inj h2]
  · intro h α truth values hvalues
    have hsome (n : String) (hn : n ∈ f.names ∨ n ∈ g.names) :
        (Valuation.ofValues truth values n).isSome := by
      rw [Valuation.ofValues, Option.isSome_map]
      exact hvalues n (mem_union.2 hn)
    refine ⟨_, hf.eval_of_isSome fun n hn => hsome n (.inl hn), ?_⟩
    rw [h]
    exact hg.eval_of_isSome fun n hn => hsome n (.inr hn)

end Formula

namespace Table

/-- **The rows list every assignment to the columns**, in the order of its number, with the values
of both formulas. -/
structure Lists (f g : Formula) (columns : List String) (rows : List Row) : Prop where
  length_eq : rows.length = 2 ^ columns.length
  /-- Row `k` assigns the columns the bits of `k`, the first column the most significant. -/
  index_eq (k : Nat) (hk : k < rows.length) :
    rows[k].assignment.map Prod.fst = columns ∧ rows[k].assignment.index = k
  values : ∀ r ∈ rows, f.eval r.assignment.value? = .ok r.result1 ∧
    g.eval r.assignment.value? = .ok r.result2

/-- The row that the truth functions of two formulas make of an assignment. -/
def rowOf (f g : Formula) (a : Assignment) : Row :=
  { assignment := a
    result1 := f.tree.truth fun n => (a.value? n).getD false
    result2 := g.tree.truth fun n => (a.value? n).getD false }

variable {text1 text2 : String} {f g : Formula}

/-- **Both formulas have a value at every assignment**: the columns hold the variables of both. -/
theorem eval_rowOf (hf : f.CompiledFrom text1) (hg : g.CompiledFrom text2) {a : Assignment}
    (ha : a ∈ Assignment.all (Formula.union [f, g])) :
    f.eval a.value? = .ok (rowOf f g a).result1 ∧
      g.eval a.value? = .ok (rowOf f g a).result2 := by
  have hsome (n : String) (hn : n ∈ f.names ∨ n ∈ g.names) : (a.value? n).isSome :=
    Assignment.isSome_value?_of_mem_all ha (Formula.mem_union.2 hn)
  exact ⟨hf.eval_of_isSome fun n hn => hsome n (.inl hn),
    hg.eval_of_isSome fun n hn => hsome n (.inr hn)⟩

/-- **Within the limit the comparison gives the whole table.** -/
theorem compare_eq_ok (hf : f.CompiledFrom text1) (hg : g.CompiledFrom text2) {limit : Int}
    (hlimit : (Formula.union [f, g]).length ≤ limit) :
    compare f g limit = .ok ((Assignment.all (Formula.union [f, g])).map (rowOf f g)) := by
  have hrow (a : Assignment) (ha : a ∈ Assignment.all (Formula.union [f, g])) :
      row f g a = .ok (rowOf f g a) := by
    obtain ⟨h1, h2⟩ := eval_rowOf hf hg ha
    rw [row, h1, h2]
    rfl
  rw [compare, if_neg (Int.not_lt.2 hlimit), mapM_eq_ok hrow]
  rfl

/-- Past the limit there is no row, but a refusal. -/
theorem compare_eq_error {limit : Int} (hlimit : limit < (Formula.union [f, g]).length) :
    compare f g limit = .error (.tooManyVars (Formula.union [f, g]).length limit) := by
  rw [compare, if_pos hlimit]

/-- **The whole table** is the list of all assignments. -/
theorem lists_rowOf (hf : f.CompiledFrom text1) (hg : g.CompiledFrom text2) :
    Lists f g (Formula.union [f, g]) ((Assignment.all (Formula.union [f, g])).map (rowOf f g)) where
  length_eq := by rw [List.length_map, Assignment.length_all, Nat.pow_eq]
  index_eq k hk := by
    rw [List.length_map] at hk
    simp only [List.getElem_map]
    exact ⟨Assignment.map_fst_of_mem_all (List.getElem_mem hk), Assignment.index_getElem_all _ k hk⟩
  values r hr := by
    obtain ⟨a, ha, rfl⟩ := List.mem_map.1 hr
    exact eval_rowOf hf hg ha

/-- **The rows are all the same** exactly when the trees have one truth function: every valuation
of the columns is a row. -/
theorem forall_same_iff (hf : f.CompiledFrom text1) (hg : g.CompiledFrom text2) :
    (∀ r ∈ (Assignment.all (Formula.union [f, g])).map (rowOf f g), r.same = true) ↔
      ∀ w, f.tree.truth w = g.tree.truth w := by
  rw [List.forall_mem_map]
  constructor
  · intro hsame w
    have ha := Assignment.map_mem_all w (Formula.union [f, g])
    have hvalue (n : String) (hn : n ∈ f.names ∨ n ∈ g.names) :=
      Assignment.value?_map w (Formula.mem_union.2 hn)
    obtain ⟨h1, h2⟩ := eval_rowOf hf hg ha
    rw [hf.eval_eq_truth fun n hn => hvalue n (.inl hn)] at h1
    rw [hg.eval_eq_truth fun n hn => hvalue n (.inr hn)] at h2
    rw [Except.ok.inj h1, Except.ok.inj h2]
    exact eq_of_beq (hsame _ ha)
  · intro h a _
    rw [Row.same, rowOf, h]
    exact beq_self_eq_true _

/-- **The table decides equivalence.**  Within the limit the comparison of two formulas lists every
assignment to their variables, and its rows are all the same exactly for equivalent formulas; past
the limit it gives no row.  No other refusal comes out of it. -/
theorem compare_decides (hf : Formula.compile text1 = .ok f) (hg : Formula.compile text2 = .ok g)
    (limit : Int) :
    let columns := Formula.union [f, g]
    (columns.length ≤ limit →
      ∃ rows, compare f g limit = .ok rows ∧ Lists f g columns rows ∧
        ((∀ r ∈ rows, r.same = true) ↔ f.EquivalentOver columns g)) ∧
    (limit < columns.length → compare f g limit = .error
      (if Numeral.writable (2 ^ columns.length) && Numeral.writable limit.natAbs then
        .expr (.tooManyVars columns.length limit)
      else .digits .writing)) ∧
    ∀ e, compare f g limit = .error (.expr e) → e = .tooManyVars columns.length limit := by
  have hf := Formula.compile_eq_ok_iff.1 hf
  have hg := Formula.compile_eq_ok_iff.1 hg
  refine ⟨fun hlimit => ⟨_, compare_eq_ok hf hg hlimit, lists_rowOf hf hg, ?_⟩, compare_eq_error,
    fun e he => ?_⟩
  · rw [forall_same_iff hf hg, Formula.equivalentOver_iff hf hg]
  · by_cases hlimit : limit < (Formula.union [f, g]).length
    · rw [compare_eq_error hlimit, Failure.tooManyVars] at he
      split at he
      · exact (Failure.expr.inj (Except.error.inj he)).symm
      · nomatch Except.error.inj he
    · rw [compare_eq_ok hf hg (Int.not_lt.1 hlimit)] at he
      nomatch he

/-- Two texts of one truth function, at the limit and past it. -/
theorem compare_decides_xor : ∃ f g,
    Formula.compile "A^B" = .ok f ∧ Formula.compile "A!B+B!A" = .ok g ∧
      (∃ rows, compare f g 2 = .ok rows ∧ Lists f g ["A", "B"] rows ∧
        f.EquivalentOver ["A", "B"] g) ∧
      compare f g 1 = .error (.expr (.tooManyVars 2 1)) := by
  let only (x y : String) : Expr := .bin .and (.var x) (.not (.var y))
  let f : Formula :=
    { text := "A^B"
      tokens := [.var "A", .plain (.conn .xor), .var "B"]
      sequence := [.var "A", .var "B", .plain (.conn .xor)]
      names := ["A", "B"]
      tree := .bin .xor (.var "A") (.var "B") }
  let g : Formula :=
    { text := "A!B+B!A"
      tokens := [.var "A", .plain (.conn .and), .op .not true, .var "B", .plain (.conn .or),
        .var "B", .plain (.conn .and), .op .not true, .var "A"]
      sequence := (Expr.bin .or (only "A" "B") (only "B" "A")).postorder
      names := ["A", "B"]
      tree := .bin .or (only "A" "B") (only "B" "A") }
  have hf : Formula.compile "A^B" = .ok f := by decide +kernel
  have hg : Formula.compile "A!B+B!A" = .ok g := by decide +kernel
  have hunion : Formula.union [f, g] = ["A", "B"] := by decide +kernel
  have hagree : (compare f g 2).toOption.map agree = some true := by decide +kernel
  obtain ⟨rows, hrows, hlists, hiff⟩ := (compare_decides hf hg 2).1 (by decide +kernel)
  have hpast := (compare_decides hf hg 1).2.1 (by decide +kernel)
  rw [hrows] at hagree
  have hsame : ∀ r ∈ rows, r.same = true := List.all_eq_true.1 (Option.some.inj hagree)
  rw [hunion] at hlists hiff hpast
  exact ⟨f, g, hf, hg, ⟨rows, hrows, hlists, hiff.1 hsame⟩, hpast.trans (by decide +kernel)⟩

end Table

end TruthTable
