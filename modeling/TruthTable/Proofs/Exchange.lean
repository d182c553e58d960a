import TruthTable.Proofs.Display
import TruthTable.Proofs.NaturalOrder

/-!
# Proofs/Exchange — two texts compared the other way around

The names of two formulas are put in one order whichever formula brings them, so the table has the
same columns and the same rows whichever formula stands first, and only the results change places.
A text that has no formula is refused in either place.  So the report changes sides and nothing
more; where neither text has a formula it is the first that is told, and all that can be said is
that both reports are refused.

* `Row.exchange`, `Report.exchange` — a row and a report with their sides exchanged.
* `Table.compare_exchange`, `compareTexts_exchange` — a table and a comparison the other way around.
* `Report.ofTexts_exchange` — the report of two texts the other way around.
-/

namespace TruthTable

/-! ## Rows -/

/-- The row **with its results exchanged**. -/
def Row.exchange (r : Row) : Row := { r with result1 := r.result2, result2 := r.result1 }

theorem Row.same_exchange (r : Row) : r.exchange.same = r.same := BEq.comm

/-- **Two formulas have the same names**, whichever stands first. -/
theorem Formula.union_comm (f g : Formula) : union [f, g] = union [g, f] :=
  VarName.sort_congr fun _ => ((List.Perm.swap g f []).flatMap_right names).mem_iff

namespace Table

variable {text1 text2 : String} {f g : Formula} {limit : Int}

theorem map_rowOf_exchange (f g : Formula) (as : List Assignment) :
    (as.map (rowOf f g)).map Row.exchange = as.map (rowOf g f) := List.map_map

/-- **The table of two formulas the other way around** has the results exchanged, row by row. -/
theorem compare_exchange (hf : f.CompiledFrom text1) (hg : g.CompiledFrom text2) :
    compare g f limit = List.map Row.exchange <$> compare f g limit := by
  have hnames : Formula.union [g, f] = Formula.union [f, g] := Formula.union_comm g f
  by_cases hwidth : limit < (Formula.union [f, g]).length
  · rw [compare_eq_error hwidth, compare_eq_error (hnames ▸ hwidth), hnames]
    rfl
  · have hrows : (Formula.union [f, g]).length ≤ limit := Int.not_lt.1 hwidth
    rw [compare_eq_ok hf hg hrows, compare_eq_ok hg hf (hnames ▸ hrows), hnames]
    exact congrArg Except.ok (map_rowOf_exchange f g _).symm

theorem agree_map_exchange (rows : List Row) : agree (rows.map Row.exchange) = agree rows := by
  rw [agree, List.all_map]
  exact congrArg rows.all (funext Row.same_exchange)

theorem differences_map_exchange (rows : List Row) :
    differences (rows.map Row.exchange) = (differences rows).map Row.exchange := by
  have hsame : (fun r : Row => !r.same) ∘ Row.exchange = fun r => !r.same :=
    funext fun r => congrArg not (Row.same_exchange r)
  rw [differences, List.filter_map, hsame, differences]

end Table

/-! ## Comparisons -/

/-- Two formulas and their rows **with the sides exchanged**. -/
def exchangeSides (c : Formula × Formula × List Row) : Formula × Formula × List Row :=
  (c.2.1, c.1, c.2.2.map Row.exchange)

section Comparisons

variable {text1 text2 : String} {limit : Int}

/-- **A comparison the other way around.**  Where one text at least has a formula the failure is the
same one, and what comes through has its sides exchanged. -/
theorem compareTexts_exchange
    (h : (∃ f, Formula.compile text1 = .ok f) ∨ ∃ g, Formula.compile text2 = .ok g) :
    compareTexts text2 text1 limit = exchangeSides <$> compareTexts text1 text2 limit := by
  rw [compareTexts, compareTexts]
  rcases hf : Formula.compile text1 with x | f <;> rcases hg : Formula.compile text2 with y | g
  · rw [hf, hg] at h
    rcases h with ⟨_, h⟩ | ⟨_, h⟩ <;> cases h
  · rfl
  · rfl
  · have hrows : Table.compare g f limit = List.map Row.exchange <$> Table.compare f g limit :=
      Table.compare_exchange (Formula.compile_eq_ok_iff.1 hf) (Formula.compile_eq_ok_iff.1 hg)
    simp only [hrows, bind, Except.bind, Functor.map, Except.map]
    rcases Table.compare f g limit with x | rows <;> rfl

end Comparisons

/-! ## Reports -/

namespace Report

/-- The report **with its sides exchanged**. -/
def exchange (r : Report) : Report :=
  { r with rows := r.rows.map Row.exchange, markup1 := r.markup2, markup2 := r.markup1 }

variable {room : Room} {text1 text2 : String} {s : Settings}

theorem equivalent_exchange (r : Report) : r.exchange.equivalent = r.equivalent :=
  congrArg (r.error.isNone && ·) (Table.agree_map_exchange r.rows)

theorem displayRows_exchange (r : Report) :
    r.exchange.displayRows = r.displayRows.map Row.exchange := by
  rw [displayRows, displayRows, apply_ite (List.map Row.exchange),
    ← Table.differences_map_exchange]
  rfl

theorem ofFormulas_exchange (room : Room) (s : Settings) (f g : Formula) (rows : List Row) :
    ofFormulas room s g f (rows.map Row.exchange) = (ofFormulas room s f g rows).exchange := by
  rw [ofFormulas, Formula.union_comm]
  rfl

/-- **The report of two texts the other way around** has its sides exchanged, where one of them at
least has a formula. -/
theorem ofTexts_eq_exchange
    (h : (∃ f, Formula.compile text1 = .ok f) ∨ ∃ g, Formula.compile text2 = .ok g) :
    ofTexts room text2 text1 s = exchange <$> ofTexts room text1 text2 s := by
  rw [ofTexts, ofTexts, compareTexts_exchange h]
  rcases compareTexts text1 text2 s.maxVars with (e | d) | ⟨f, g, rows⟩
  · rfl
  · rfl
  · exact congrArg Except.ok (ofFormulas_exchange room s f g rows)

/-- Without a refusal both texts have a formula. -/
theorem exists_compile_of_error_eq_none {r : Report} (hr : ofTexts room text1 text2 s = .ok r)
    (he : r.error = none) : ∃ f, Formula.compile text1 = .ok f := by
  obtain ⟨f, g, rows, h, -⟩ := exists_compareTexts_of_error_eq_none hr he
  obtain ⟨f, hf, -⟩ := bind_eq_ok_iff.1 h
  exact ⟨f, hf⟩

/-- **Without a refusal the report has its sides exchanged.** -/
theorem ofTexts_eq_ok_exchange {r : Report} (hr : ofTexts room text1 text2 s = .ok r)
    (he : r.error = none) : ofTexts room text2 text1 s = .ok r.exchange := by
  rw [ofTexts_eq_exchange (.inl (exists_compile_of_error_eq_none hr he)), hr]
  rfl

/-- **Which text stands first has no part in what is found.**  Of two reports either both are
refused or none is.  Where one text at least has a formula the report the other way around has the
rows with their results exchanged and the markups exchanged, and all else is the same, the refusal
too; and if there is no report there is none the other way around, for the same reason.  Without a
refusal that is always so, and the verdict is the same and the rows that are shown are the same,
exchanged. -/
theorem ofTexts_exchange (room : Room) (text1 text2 : String) (s : Settings) :
    (∀ r r', ofTexts room text1 text2 s = .ok r → ofTexts room text2 text1 s = .ok r' →
      (r'.error = none ↔ r.error = none)) ∧
    ((∃ f, Formula.compile text1 = .ok f) ∨ (∃ g, Formula.compile text2 = .ok g) →
      ofTexts room text2 text1 s = exchange <$> ofTexts room text1 text2 s) ∧
    ∀ r, ofTexts room text1 text2 s = .ok r → r.error = none →
      ∃ r', ofTexts room text2 text1 s = .ok r' ∧ r'.error = none ∧ r'.names = r.names ∧
        r'.rows = r.rows.map Row.exchange ∧ r'.markup1 = r.markup2 ∧ r'.markup2 = r.markup1 ∧
        r'.equivalent = r.equivalent ∧ r'.displayRows = r.displayRows.map Row.exchange := by
  refine ⟨fun r r' hr hr' => ⟨fun he => ?_, fun he => ?_⟩, ofTexts_eq_exchange, fun r hr he => ?_⟩
  · obtain rfl := Except.ok.inj (hr.symm.trans (ofTexts_eq_ok_exchange hr' he))
    exact he
  · obtain rfl := Except.ok.inj (hr'.symm.trans (ofTexts_eq_ok_exchange hr he))
    exact he
  · exact ⟨r.exchange, ofTexts_eq_ok_exchange hr he, he, rfl, rfl, rfl, rfl,
      equivalent_exchange r, displayRows_exchange r⟩

/-- Names in natural order, whichever text brings them first, and a text without a formula, refused
in either place. -/
theorem ofTexts_exchange_open :
    let s : Settings := { onlyDiff := true, markup := "text" }
    (∃ r r', ofTexts .standard "A10*A9" "A9" s = .ok r ∧
      ofTexts .standard "A9" "A10*A9" s = .ok r' ∧
      r'.names = ["A9", "A10"] ∧ r'.markup1 = "A9" ∧
      r'.rows = r.rows.map Row.exchange ∧ r'.equivalent = r.equivalent ∧
      r'.displayRows = r.displayRows.map Row.exchange) ∧
    ofTexts .standard "A" "(" s = .ok (refused s .mismatchedParens) ∧
    ofTexts .standard "(" "A" s = .ok (refused s .mismatchedParens) := by
  intro s
  have hwhole : ((ofTexts .standard "A10*A9" "A9" s).toOption.map fun r =>
      (r.error, r.names, r.markup2)) =
      some (none, ["A9", "A10"], "A9") := by decide +kernel
  obtain ⟨r, hr, hparts⟩ := Option.map_eq_some_iff.1 hwhole
  have hr := toOption_eq_some_iff.1 hr
  obtain ⟨he, hparts⟩ := Prod.mk.inj hparts
  obtain ⟨hnames, hmarkup⟩ := Prod.mk.inj hparts
  obtain ⟨-, -, hexchange⟩ := ofTexts_exchange .standard "A10*A9" "A9" s
  obtain ⟨r', hr', -, hnames', hrows, hmarkup', -, hequivalent, hshown⟩ := hexchange r hr he
  have hopen : ofTexts .standard "A" "(" s = .ok (refused s .mismatchedParens) := by decide +kernel
  have hcompiled : (Formula.compile "A").toOption.isSome := by decide +kernel
  obtain ⟨f, hf⟩ := Option.isSome_iff_exists.1 hcompiled
  obtain ⟨-, hrefused, -⟩ := ofTexts_exchange .standard "A" "(" s
  refine ⟨⟨r, r', hr, hr', hnames'.trans hnames, hmarkup'.trans hmarkup, hrows, hequivalent,
    hshown⟩, hopen, ?_⟩
  rw [hrefused (.inl ⟨f, toOption_eq_some_iff.1 hf⟩), hopen]
  rfl

end Report

end TruthTable
