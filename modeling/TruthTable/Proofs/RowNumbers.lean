import Mathlib.Data.List.Basic
import TruthTable.Proofs.Disagreement

/-!
# Proofs/RowNumbers — the rows at which a formula is true, over any columns

A row number holds one bit for each column, the first column the most significant.  A formula is
true at a row when it is true under these bits, so columns that it has no variable for do not
matter: leaving out their bits leaves the number of a row over its own variables.

* `Assignment.bit`, `Assignment.project` — the bit of a column, and the number of the bits of some.
* `Assignment.all_eq_map` — the assignment at a row is made of the bits of its number.
* `Formula.truthIndices_eq` — the row numbers are those under whose bits the formula is true.
* `Formula.truthIndices_agree` — they ignore columns without a variable, and agree with the rows of
  a comparison.
-/

namespace TruthTable

variable {columns names : List String} {n : String} {i : Nat}

namespace Assignment

/-! ## Bits of a row number -/

/-- **The bit of a column** in a row number. -/
def bit (columns : List String) (i : Nat) (n : String) : Bool :=
  i.testBit (columns.length - 1 - columns.idxOf n)

/-- The assignment of the bits to some of the columns. -/
def ofBits (columns names : List String) (i : Nat) : Assignment :=
  names.map fun n => (n, bit columns i n)

/-- **The number of the bits** that some of the columns have in a row number. -/
def project (columns names : List String) (i : Nat) : Nat := (ofBits columns names i).index

theorem index_lt : ∀ a : Assignment, a.index < 2 ^ a.length
  | [] => Nat.one_pos
  | (x, b) :: a => by
    have ha := index_lt a
    have hb : b.toNat * 2 ^ a.length ≤ 1 * 2 ^ a.length :=
      Nat.mul_le_mul_right _ (Bool.toNat_le b)
    rw [index_cons, List.length_cons, Nat.pow_succ]
    omega

theorem project_lt (columns names : List String) (i : Nat) :
    project columns names i < 2 ^ names.length := by
  have h := index_lt (ofBits columns names i)
  rwa [ofBits, List.length_map] at h

/-- The first column has the most significant bit. -/
theorem bit_cons_self (x : String) (b : Bool) (hi : i < 2 ^ columns.length) :
    bit (x :: columns) (b.toNat * 2 ^ columns.length + i) x = b := by
  rw [bit, List.idxOf_cons_self, Nat.sub_zero, List.length_cons, Nat.add_sub_cancel, Nat.mul_comm,
    Nat.testBit_two_pow_mul_add _ hi, if_neg (Nat.lt_irrefl _), Nat.sub_self]
  cases b <;> rfl

/-- The other columns have the bits of what is left of the number. -/
theorem bit_cons_of_mem {x : String} (b : Bool) (hi : i < 2 ^ columns.length) (hx : n ≠ x)
    (hn : n ∈ columns) : bit (x :: columns) (b.toNat * 2 ^ columns.length + i) n =
      bit columns i n := by
  have hplace : columns.idxOf n < columns.length := List.idxOf_lt_length_of_mem hn
  have hlt : (x :: columns).length - 1 - (columns.idxOf n + 1) < columns.length := by
    rw [List.length_cons]
    omega
  rw [bit, bit, List.idxOf_cons_ne _ hx.symm, Nat.mul_comm, Nat.testBit_two_pow_mul_add _ hi,
    if_pos hlt, List.length_cons, Nat.add_sub_cancel, Nat.succ_eq_add_one, Nat.sub_sub,
    Nat.add_comm 1]

/-- **An assignment is made of the bits of its number**, if it lists no name twice. -/
theorem eq_ofBits : ∀ {a : Assignment}, (a.map Prod.fst).Nodup →
    a = ofBits (a.map Prod.fst) (a.map Prod.fst) (index a)
  | [], _ => rfl
  | (x, b) :: a, h => by
    obtain ⟨hx, hnodup⟩ := List.nodup_cons.1 h
    have hlength : a.length = (a.map Prod.fst).length := (List.length_map _).symm
    have hlt : index a < 2 ^ (a.map Prod.fst).length := hlength ▸ index_lt a
    have hrest : a = ofBits (x :: a.map Prod.fst) (a.map Prod.fst)
        (b.toNat * 2 ^ (a.map Prod.fst).length + index a) := by
      refine (eq_ofBits hnodup).trans (List.map_congr_left fun n hn => ?_)
      have hne : n ≠ x := fun h => hx (h ▸ hn)
      rw [bit_cons_of_mem b hlt hne hn]
    rw [index_cons, hlength, List.map_cons, ofBits, List.map_cons, bit_cons_self _ _ hlt]
    exact congrArg _ hrest

/-- **The assignment at a row is made of the bits of its number.** -/
theorem all_eq_map (h : columns.Nodup) :
    all columns = (List.range (2 ^ columns.length)).map (ofBits columns columns) := by
  rw [← map_index_all, List.map_map]
  refine (List.map_id _).symm.trans (List.map_congr_left fun a ha => ?_)
  have hnames := map_fst_of_mem_all ha
  have hbits := eq_ofBits (hnames ▸ h)
  rwa [hnames] at hbits

theorem value?_ofBits (h : n ∈ names) :
    (ofBits columns names i).value? n = some (bit columns i n) :=
  value?_map (bit columns i) h

/-- **Bits are kept** by the number that is made of them. -/
theorem bit_project (hnodup : names.Nodup) (h : n ∈ names) :
    bit names (project columns names i) n = bit columns i n := by
  have hnames : (ofBits columns names i).map Prod.fst = names := by
    simp [ofBits, Function.comp_def]
  have hself := eq_ofBits (hnames ▸ hnodup)
  rw [hnames] at hself
  have hvalue := congrArg (value? · n) hself
  rw [value?_ofBits h, value?_ofBits h] at hvalue
  exact (Option.some.inj hvalue).symm

end Assignment

/-! ## Row numbers of a formula -/

/-- A number is among those at which a function is true exactly if the row at its place is. -/
theorem mem_filter_range_iff {α : Type} {p : Nat → Bool} {row : Nat → α} {q : α → Bool} {m : Nat}
    (h : ∀ i, q (row i) = p i) :
    i ∈ (List.range m).filter p ↔ ∃ r, ((List.range m).map row)[i]? = some r ∧ q r = true := by
  rw [List.mem_filter, List.mem_range, List.getElem?_map]
  by_cases hi : i < m
  · rw [List.getElem?_range hi]
    simp [hi, h]
  · rw [List.getElem?_eq_none (by simpa using hi)]
    simp [hi]

/-- Two functions are true at the same numbers exactly if they agree at each. -/
theorem filter_range_eq_iff {p q : Nat → Bool} {m : Nat} :
    (List.range m).filter p = (List.range m).filter q ↔ ∀ i < m, p i = q i := by
  constructor
  · intro h i hi
    have hmem : i ∈ (List.range m).filter p ↔ i ∈ (List.range m).filter q := by rw [h]
    rw [List.mem_filter, List.mem_filter, and_congr_right_iff] at hmem
    exact Bool.eq_iff_iff.2 (hmem (List.mem_range.2 hi))
  · exact fun h => List.filter_congr fun i hi => h i (List.mem_range.1 hi)

/-- The places of the values that are true are the numbers at which the function is true. -/
theorem filterMap_zipIdx_map_range (p : Nat → Bool) (m : Nat) :
    (((List.range m).map p).zipIdx.filterMap fun (b, i) => if b then some i else none) =
      (List.range m).filter p := by
  have hplaces : ((List.range m).map p).zipIdx = (List.range m).map fun i => (p i, i) := by
    rw [List.zipIdx_eq_zip_range', List.length_map, List.length_range, ← List.range_eq_range',
      ← List.zip_map', List.map_id']
  rw [hplaces, List.filterMap_map, ← List.filterMap_eq_filter]
  refine congrArg (List.filterMap · _) (funext fun i => ?_)
  simp [Option.guard]

namespace Formula

open Assignment

variable {text text1 text2 : String} {f g : Formula}

theorem CompiledFrom.nodup_names (h : f.CompiledFrom text) : f.names.Nodup :=
  h.names_eq ▸ VarName.nodup_sort _

theorem nodup_union (fs : List Formula) : (union fs).Nodup := VarName.nodup_sort _

/-- **The row numbers of a formula** are those under whose bits its tree is true. -/
theorem truthIndices_eq (hf : f.CompiledFrom text) (hnodup : columns.Nodup)
    (hcolumns : ∀ n ∈ f.names, n ∈ columns) :
    f.truthIndices columns =
      .ok ((List.range (2 ^ columns.length)).filter fun i => f.tree.truth (bit columns i)) := by
  have hvalue (i : Nat) : f.eval (ofBits columns columns i).value? =
      .ok (f.tree.truth (bit columns i)) :=
    hf.eval_eq_truth fun n hn => value?_ofBits (hcolumns n hn)
  have hvalues : (all columns).mapM (fun a => f.eval a.value?) =
      .ok ((List.range (2 ^ columns.length)).map fun i => f.tree.truth (bit columns i)) := by
    rw [all_eq_map hnodup, List.mapM_map]
    exact mapM_eq_ok fun i _ => hvalue i
  rw [← filterMap_zipIdx_map_range]
  exact bind_eq_ok_iff.2 ⟨_, hvalues, rfl⟩

/-- A formula has at a row the value that it has at the row over its own variables. -/
theorem truth_project (hf : f.CompiledFrom text) :
    f.tree.truth (bit f.names (project columns f.names i)) = f.tree.truth (bit columns i) :=
  Expr.truth_congr fun _ hn => bit_project hf.nodup_names (hf.mem_names_iff.2 hn)

/-- **The row of a number**: its bits, and the values of two formulas under them. -/
def rowAt (f g : Formula) (i : Nat) : Row :=
  let columns := union [f, g]
  { assignment := ofBits columns columns i
    result1 := f.tree.truth (bit columns i)
    result2 := g.tree.truth (bit columns i) }

/-- **The rows of two formulas** are those of the numbers, in order. -/
theorem map_rowOf_all (hf : f.CompiledFrom text1) (hg : g.CompiledFrom text2) :
    (all (union [f, g])).map (Table.rowOf f g) =
      (List.range (2 ^ (union [f, g]).length)).map (rowAt f g) := by
  have hvalue (i : Nat) (n : String) (hn : n ∈ f.names ∨ n ∈ g.names) :
      ((ofBits (union [f, g]) (union [f, g]) i).value? n).getD false = bit (union [f, g]) i n := by
    rw [value?_ofBits (mem_union.2 hn), Option.getD_some]
  rw [all_eq_map (nodup_union _), List.map_map]
  refine List.map_congr_left fun i _ => ?_
  rw [Function.comp_apply, Table.rowOf, rowAt,
    Expr.truth_congr fun n hn => hvalue i n (.inl (hf.mem_names_iff.2 hn)),
    Expr.truth_congr fun n hn => hvalue i n (.inr (hg.mem_names_iff.2 hn))]

/-- **Row numbers speak of the rows of a table.**  Over any columns that hold its variables, each
once, a formula has its row numbers in increasing order; whether one is among them shows from its
bits in the columns of the formula's variables alone.  Over the variables of two formulas they are
the numbers of the rows of their comparison, so the row numbers are equal exactly if all rows are
the same. -/
theorem truthIndices_agree (hf : compile text1 = .ok f) :
    (∃ own, f.truthIndices f.names = .ok own ∧
      ∀ columns : List String, columns.Nodup → (∀ n ∈ f.names, n ∈ columns) →
        ∃ indices, f.truthIndices columns = .ok indices ∧ indices.Pairwise (· < ·) ∧
          ∀ i, i ∈ indices ↔ i < 2 ^ columns.length ∧ project columns f.names i ∈ own) ∧
    ∀ text2 g (limit : Int), compile text2 = .ok g → (union [f, g]).length ≤ limit →
      ∃ rows indices1 indices2, Table.compare f g limit = .ok rows ∧
        f.truthIndices (union [f, g]) = .ok indices1 ∧
        g.truthIndices (union [f, g]) = .ok indices2 ∧
        (∀ i, i ∈ indices1 ↔ ∃ r, rows[i]? = some r ∧ r.result1 = true) ∧
        (∀ i, i ∈ indices2 ↔ ∃ r, rows[i]? = some r ∧ r.result2 = true) ∧
        (indices1 = indices2 ↔ ∀ r ∈ rows, r.same = true) := by
  have hf := compile_eq_ok_iff.1 hf
  refine ⟨⟨_, truthIndices_eq hf hf.nodup_names fun _ => id, fun columns hnodup hcolumns =>
    ⟨_, truthIndices_eq hf hnodup hcolumns, List.pairwise_lt_range.filter _, fun i => ?_⟩⟩, ?_⟩
  · simp only [List.mem_filter, List.mem_range, project_lt, true_and, truth_project hf]
  · intro text2 g limit hg hlimit
    have hg := compile_eq_ok_iff.1 hg
    have hnodup := nodup_union [f, g]
    have hrows := Table.compare_eq_ok hf hg hlimit
    rw [map_rowOf_all hf hg] at hrows
    refine ⟨_, _, _, hrows, truthIndices_eq hf hnodup fun n hn => mem_union.2 (.inl hn),
      truthIndices_eq hg hnodup fun n hn => mem_union.2 (.inr hn),
      fun i => mem_filter_range_iff fun _ => rfl, fun i => mem_filter_range_iff fun _ => rfl, ?_⟩
    rw [filter_range_eq_iff, List.forall_mem_map]
    simp only [List.mem_range, Row.same, rowAt, beq_iff_eq]

/-- Over columns in another order and with one to spare, and against a formula with a variable of
its own. -/
theorem truthIndices_agree_xor : ∃ f g, compile "C^A" = .ok f ∧ compile "A*B" = .ok g ∧
    f.truthIndices ["C", "B", "A"] = .ok [1, 3, 4, 6] ∧
    project ["C", "B", "A"] f.names 6 = 1 ∧ f.truthIndices f.names = .ok [1, 2] ∧
    (6 ∈ [1, 3, 4, 6] ↔ 6 < 2 ^ 3 ∧ project ["C", "B", "A"] f.names 6 ∈ [1, 2]) ∧
    ∃ rows, Table.compare f g 3 = .ok rows ∧ f.truthIndices ["A", "B", "C"] = .ok [1, 3, 4, 6] ∧
      g.truthIndices ["A", "B", "C"] = .ok [6, 7] ∧
      (∃ r, rows[4]? = some r ∧ r.result1 = true) ∧ ¬ ∀ r ∈ rows, r.same = true := by
  let f : Formula :=
    { text := "C^A"
      tokens := [.var "C", .plain (.conn .xor), .var "A"]
      sequence := [.var "C", .var "A", .plain (.conn .xor)]
      names := ["A", "C"]
      tree := .bin .xor (.var "C") (.var "A") }
  let g : Formula :=
    { text := "A*B"
      tokens := [.var "A", .plain (.conn .and), .var "B"]
      sequence := [.var "A", .var "B", .plain (.conn .and)]
      names := ["A", "B"]
      tree := .bin .and (.var "A") (.var "B") }
  have hf : compile "C^A" = .ok f := by decide +kernel
  have hg : compile "A*B" = .ok g := by decide +kernel
  have hunion : union [f, g] = ["A", "B", "C"] := by decide +kernel
  have hfewer : f.truthIndices f.names = .ok [1, 2] := by decide +kernel
  have hmore : f.truthIndices ["C", "B", "A"] = .ok [1, 3, 4, 6] := by decide +kernel
  have hleft : f.truthIndices ["A", "B", "C"] = .ok [1, 3, 4, 6] := by decide +kernel
  have hright : g.truthIndices ["A", "B", "C"] = .ok [6, 7] := by decide +kernel
  obtain ⟨⟨own, hown, hproject⟩, hcompare⟩ := truthIndices_agree hf
  obtain ⟨indices, hindices, -, hmem⟩ := hproject ["C", "B", "A"] (by decide) (by decide)
  obtain ⟨rows, indices1, indices2, hrows, h1, h2, hrows1, -, hsame⟩ :=
    hcompare "A*B" g 3 hg (by decide +kernel)
  rw [hunion] at h1 h2
  obtain rfl := Except.ok.inj (hown.symm.trans hfewer)
  obtain rfl := Except.ok.inj (hindices.symm.trans hmore)
  obtain rfl := Except.ok.inj (h1.symm.trans hleft)
  obtain rfl := Except.ok.inj (h2.symm.trans hright)
  exact ⟨f, g, hf, hg, hmore, by decide +kernel, hfewer, hmem 6, rows, hrows, hleft, hright,
    (hrows1 4).1 (by decide), fun h => absurd (hsame.2 h) (by decide)⟩

end Formula

end TruthTable
