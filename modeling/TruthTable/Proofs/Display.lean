import TruthTable.Proofs.Report
import TruthTable.Proofs.Stream
import TruthTable.Proofs.Yard

/-!
# Proofs/Display — what is found is apart from how it is shown, and from the limit that allows it

Two of the settings say how a report is shown, and a report finds the same whatever they say, also
where an expression has no form in the markup.  The third bounds the width of the table.  What comes
through under one limit comes through unchanged under every greater one, and a failure that is not
the limit's own is the same under all.

* `Failure.FromLimit` — the failures that are the limit's own.
* `compareTexts_eq_ok_of_le`, `compareTexts_eq_error_of_not_fromLimit` — a comparison under another
  limit.
* `Report.Finding` — what a report finds.
* `Report.finding_apart_from_display` — the settings have no more part in it than that.
-/

namespace TruthTable

/-! ## The limit's own failures -/

/-- **The failure is the limit's own**: a table that is too wide is refused, or its refusal cannot
write the number of rows. -/
inductive Failure.FromLimit : Failure → Prop
  | refusal (count : Nat) (limit : Int) : FromLimit (.expr (.tooManyVars count limit))
  | wording : FromLimit (.digits .writing)

theorem Failure.fromLimit_tooManyVars (count : Nat) (limit : Int) :
    (tooManyVars count limit).FromLimit := by
  unfold tooManyVars
  split
  · exact .refusal count limit
  · exact .wording

/-- A text has nothing to do with the width of a table. -/
theorem Formula.not_fromLimit_of_compile {text : String} {x : Failure}
    (h : compile text = .error x) : ¬ x.FromLimit := by
  rcases compile_eq_error_iff.1 h with ⟨e, he, rfl⟩ | ⟨t, d, -, hd, rfl⟩
  · rcases he with he | ⟨-, he⟩ | ⟨-, -, he⟩
    · obtain ⟨p, c, rfl⟩ := scanFrom_eq_error (map_eq_error_iff.1 he)
      exact fun h => nomatch h
    · obtain rfl := Postfix.ofInfix_eq_error he
      exact fun h => nomatch h
    · obtain ⟨_, m, -, rfl⟩ := Postfix.toExpr_eq_error_iff.1 he
      exact fun h => nomatch h
  · obtain ⟨k, rfl⟩ := VarName.sortChecked_eq_error hd
    exact fun h => nomatch h

/-! ## Other limits -/

section Limits

variable {text1 text2 : String} {limit limit' : Int} {x : Failure}

/-- **A failure is the limit's own** where both texts have a formula. -/
theorem compareTexts_fromLimit_iff (h : compareTexts text1 text2 limit = .error x) :
    x.FromLimit ↔
      (∃ f, Formula.compile text1 = .ok f) ∧ ∃ g, Formula.compile text2 = .ok g := by
  rcases compareTexts_eq_error_iff.1 h with h | ⟨f, hf, h | ⟨g, hg, h⟩⟩
  · refine iff_of_false (Formula.not_fromLimit_of_compile h) ?_
    rintro ⟨⟨f, hf⟩, -⟩
    nomatch h.symm.trans hf
  · refine iff_of_false (Formula.not_fromLimit_of_compile h) ?_
    rintro ⟨-, g, hg⟩
    nomatch h.symm.trans hg
  · obtain ⟨-, hx⟩ := (compare_eq_error_iff hf hg).1 h
    exact iff_of_true (hx ▸ Failure.fromLimit_tooManyVars _ _) ⟨⟨f, hf⟩, g, hg⟩

/-- **What comes through under a limit** comes through unchanged under a greater one. -/
theorem compareTexts_eq_ok_of_le {r : Formula × Formula × List Row} (hle : limit ≤ limit')
    (h : compareTexts text1 text2 limit = .ok r) : compareTexts text1 text2 limit' = .ok r := by
  obtain ⟨f, hf, h⟩ := bind_eq_ok_iff.1 h
  obtain ⟨g, hg, h⟩ := bind_eq_ok_iff.1 h
  obtain ⟨rows, hrows, h⟩ := bind_eq_ok_iff.1 h
  have hwidth : ¬ limit < (Formula.union [f, g]).length := fun hwidth =>
    nomatch (Table.compare_eq_error hwidth).symm.trans hrows
  have hwidth' : ¬ limit' < (Formula.union [f, g]).length := by omega
  rw [Table.compare, if_neg hwidth] at hrows
  refine bind_eq_ok_iff.2 ⟨f, hf, bind_eq_ok_iff.2 ⟨g, hg, bind_eq_ok_iff.2 ⟨rows, ?_, h⟩⟩⟩
  rw [Table.compare, if_neg hwidth']
  exact hrows

/-- **A failure that is not the limit's own** is the same under every limit. -/
theorem compareTexts_eq_error_of_not_fromLimit (h : compareTexts text1 text2 limit = .error x)
    (hx : ¬ x.FromLimit) (limit' : Int) : compareTexts text1 text2 limit' = .error x := by
  rcases compareTexts_eq_error_iff.1 h with hf | ⟨f, hf, hg | ⟨g, hg, hrows⟩⟩
  · exact compareTexts_eq_error_iff.2 (.inl hf)
  · exact compareTexts_eq_error_iff.2 (.inr ⟨f, hf, .inl hg⟩)
  · exact absurd ((compareTexts_fromLimit_iff h).2 ⟨⟨f, hf⟩, g, hg⟩) hx

end Limits

/-! ## Reports -/

namespace Report

/-- **What a report finds**, apart from how it is shown. -/
structure Finding where
  error : Option ExprError
  rows : List Row
  names : List String
  equivalent : Bool
  deriving DecidableEq, Repr

/-- The finding of a report. -/
def finding (r : Report) : Finding :=
  { error := r.error, rows := r.rows, names := r.names, equivalent := r.equivalent }

/-- Why a report shows no table, or why there is no report. -/
def failure? : Except Numeral.LimitError Report → Option Failure
  | .ok r => r.error.map .expr
  | .error d => some (.digits d)

variable {room : Room} {text1 text2 : String} {s s' : Settings}

theorem failure?_eq_some_iff {x : Failure} : failure? (ofTexts room text1 text2 s) = some x ↔
    compareTexts text1 text2 s.maxVars = .error x := by
  rw [ofTexts]
  rcases compareTexts text1 text2 s.maxVars with (e | d) | ⟨f, g, rows⟩ <;>
    simp [failure?, refused, ofFormulas]

/-- A report without a refusal is that of a comparison that goes through. -/
theorem exists_compareTexts_of_error_eq_none {r : Report} (hr : ofTexts room text1 text2 s = .ok r)
    (he : r.error = none) : ∃ f g rows, compareTexts text1 text2 s.maxVars = .ok (f, g, rows) ∧
      r = ofFormulas room s f g rows := by
  rw [ofTexts] at hr
  rcases h : compareTexts text1 text2 s.maxVars with (e | d) | ⟨f, g, rows⟩
  · rw [h] at hr
    obtain rfl := Except.ok.inj hr
    cases he
  · rw [h] at hr
    cases hr
  · rw [h] at hr
    exact ⟨f, g, rows, rfl, (Except.ok.inj hr).symm⟩

/-- **The limit acts on a report** through the comparison alone. -/
theorem ofTexts_eq_of_compareTexts_eq {limit : Int}
    (h : compareTexts text1 text2 limit = compareTexts text1 text2 s.maxVars) :
    ofTexts room text1 text2 { s with maxVars := limit } = ofTexts room text1 text2 s := by
  rw [ofTexts, ofTexts, h]
  rfl

/-- **How it is shown has no part in what a report finds.** -/
theorem finding_ofTexts_congr (h : s'.maxVars = s.maxVars) :
    finding <$> ofTexts room text1 text2 s' = finding <$> ofTexts room text1 text2 s := by
  rw [ofTexts, ofTexts, h]
  rcases compareTexts text1 text2 s.maxVars with (e | d) | ⟨f, g, rows⟩ <;> rfl

/-- **What is found is apart from how it is shown.**  Settings with one limit give reports with one
finding, or the same break-off; of the rows all are shown, or those that differ.  A report without a
refusal is the same under every greater limit.  A failure is the limit's own exactly where both
texts have a formula, and every other failure is the same under every limit. -/
theorem finding_apart_from_display (room : Room) (text1 text2 : String) (s : Settings) :
    (∀ s' : Settings, s'.maxVars = s.maxVars →
      finding <$> ofTexts room text1 text2 s' = finding <$> ofTexts room text1 text2 s) ∧
    (∀ r, ofTexts room text1 text2 s = .ok r → r.error = none →
      r.displayRows =
        (if s.onlyDiff then r.rows.filter fun row => row.result1 != row.result2 else r.rows) ∧
      ∀ limit, s.maxVars ≤ limit → ofTexts room text1 text2 { s with maxVars := limit } = .ok r) ∧
    ∀ x, failure? (ofTexts room text1 text2 s) = some x →
      (x.FromLimit ↔
        (∃ f, Formula.compile text1 = .ok f) ∧ ∃ g, Formula.compile text2 = .ok g) ∧
      (¬ x.FromLimit → ∀ limit,
        ofTexts room text1 text2 { s with maxVars := limit } = ofTexts room text1 text2 s) := by
  refine ⟨fun s' => finding_ofTexts_congr, fun r hr he => ?_, fun x hx => ?_⟩
  · obtain ⟨f, g, rows, h, rfl⟩ := exists_compareTexts_of_error_eq_none hr he
    refine ⟨rfl, fun limit hle => ?_⟩
    rw [← hr, ofTexts_eq_of_compareTexts_eq (h ▸ compareTexts_eq_ok_of_le hle h)]
  · have h := failure?_eq_some_iff.1 hx
    refine ⟨compareTexts_fromLimit_iff h, fun hnot limit => ofTexts_eq_of_compareTexts_eq ?_⟩
    rw [h, compareTexts_eq_error_of_not_fromLimit h hnot]

/-- A markup that does not exist, a limit that is just met, and a text that has no formula. -/
theorem finding_apart_from_display_no_markup :
    let s : Settings := { maxVars := 2, onlyDiff := true, markup := "html" }
    let shown := ofTexts .standard "A^B" "A+B"
    let broken := ofTexts .standard "A" "("
    finding <$> shown { maxVars := 2 } = finding <$> shown s ∧
      (∃ r, shown s = .ok r ∧ r.error = none ∧ r.markup1 = "" ∧
        r.displayRows = r.rows.filter (fun row => row.result1 != row.result2) ∧
        shown { s with maxVars := 9 } = .ok r) ∧
      failure? (broken s) = some (.expr .mismatchedParens) ∧
      broken { s with maxVars := 0 } = broken s := by
  intro s shown broken
  obtain ⟨hdisplay, hshown, -⟩ := finding_apart_from_display .standard "A^B" "A+B" s
  have hwhole : ((shown s).toOption.map fun r => (r.error, r.markup1)) = some (none, "") := by
    decide +kernel
  obtain ⟨r, hr, hparts⟩ := Option.map_eq_some_iff.1 hwhole
  have hr := toOption_eq_some_iff.1 hr
  obtain ⟨he, hmarkup⟩ := Prod.mk.inj hparts
  obtain ⟨hrows, hlimit⟩ := hshown r hr he
  have hopen : failure? (broken s) = some (.expr .mismatchedParens) := by decide +kernel
  obtain ⟨-, -, hfailure⟩ := finding_apart_from_display .standard "A" "(" s
  exact ⟨hdisplay _ rfl, ⟨r, hr, he, hmarkup, hrows, hlimit 9 (by decide)⟩, hopen,
    (hfailure _ hopen).2 (fun h => nomatch h) 0⟩

end Report

end TruthTable
