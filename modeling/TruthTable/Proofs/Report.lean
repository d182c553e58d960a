import TruthTable.Report
import TruthTable.Proofs.Equivalence
import TruthTable.Proofs.Lexing

/-!
# Proofs/Report — every comparison has a report, the digit limit apart

A comparison ends in a table, in a refusal, or at the digit limit.  The first two make a report.
The digit limit is met in two ways: a variable has a digit run past it, or the table has so many
rows that the refusal cannot write their number.

* `Refuses` — why a comparison is refused.
* `PastLimit` — where the digit limit stops a comparison.
* `report_iff_not_pastLimit` — which comparisons have a report, and what a refused one holds.
-/

namespace TruthTable

/-! ## The width of the table -/

theorem Numeral.writable_of_le {m n : Nat} (h : m ≤ n) (hn : writable n = true) :
    writable m = true :=
  decide_eq_true (Nat.lt_of_le_of_lt h (of_decide_eq_true hn))

/-- **A positive limit can be written where the number of rows can**, so only the latter matters. -/
theorem Failure.tooManyVars_eq {count : Nat} {limit : Int} (hpos : 1 ≤ limit)
    (hlimit : limit < count) :
    tooManyVars count limit =
      if Numeral.writable (2 ^ count) then expr (.tooManyVars count limit)
      else digits .writing := by
  have hle : limit.natAbs ≤ 2 ^ count := by
    have := Nat.lt_two_pow_self (n := count)
    omega
  have hboth : (Numeral.writable (Nat.pow 2 count) && Numeral.writable limit.natAbs) =
      Numeral.writable (2 ^ count) :=
    Bool.and_eq_left_iff_imp.2 (Numeral.writable_of_le hle)
  rw [tooManyVars, hboth]

/-! ## How a comparison ends -/

/-- **A comparison is refused**: at one of its texts, or at the width of the table. -/
inductive Refuses (text1 text2 : String) (limit : Int) : ExprError → Prop
  | first {e} (h : Formula.Refused text1 e) : Refuses text1 text2 limit e
  | second {f e} (hf : Formula.compile text1 = .ok f) (h : Formula.Refused text2 e) :
    Refuses text1 text2 limit e
  | width {f g} (hf : Formula.compile text1 = .ok f) (hg : Formula.compile text2 = .ok g)
    (hwidth : limit < (Formula.union [f, g]).length) :
    Refuses text1 text2 limit (.tooManyVars (Formula.union [f, g]).length limit)

/-- **The digit limit stops a comparison**: at a variable of one of its texts, or at the number of
rows of a table that is too wide. -/
inductive PastLimit (text1 text2 : String) (limit : Int) : Prop
  | first {t n} (h : Formula.Spells text1 t) (hn : n ∈ t.occurrences)
    (hlimit : ¬ VarName.WithinLimit n)
  | second {f t n} (hf : Formula.compile text1 = .ok f) (h : Formula.Spells text2 t)
    (hn : n ∈ t.occurrences) (hlimit : ¬ VarName.WithinLimit n)
  | rows {f g} (hf : Formula.compile text1 = .ok f) (hg : Formula.compile text2 = .ok g)
    (hwidth : limit < (Formula.union [f, g]).length)
    (hrows : Numeral.writable (2 ^ (Formula.union [f, g]).length) = false)

variable {text1 text2 : String} {limit : Int}

/-- A comparison fails where the first of its three parts fails. -/
theorem compareTexts_eq_error_iff {x : Failure} :
    compareTexts text1 text2 limit = .error x ↔
      Formula.compile text1 = .error x ∨ ∃ f, Formula.compile text1 = .ok f ∧
        (Formula.compile text2 = .error x ∨ ∃ g, Formula.compile text2 = .ok g ∧
          Table.compare f g limit = .error x) := by
  simp only [compareTexts, bind_eq_error_iff, pure, Except.pure, reduceCtorEq, and_false,
    exists_false, or_false]

/-- **The table is refused or the digit limit is met** only past the limit. -/
theorem compare_eq_error_iff {f g : Formula} (hf : Formula.compile text1 = .ok f)
    (hg : Formula.compile text2 = .ok g) {x : Failure} :
    Table.compare f g limit = .error x ↔ limit < (Formula.union [f, g]).length ∧
      x = .tooManyVars (Formula.union [f, g]).length limit := by
  by_cases hwidth : limit < (Formula.union [f, g]).length
  · rw [Table.compare_eq_error hwidth, Except.error.injEq, eq_comm]
    exact (and_iff_right hwidth).symm
  · rw [Table.compare_eq_ok (Formula.compile_eq_ok_iff.1 hf) (Formula.compile_eq_ok_iff.1 hg)
      (Int.not_lt.1 hwidth)]
    exact ⟨fun h => (nomatch h), fun h => absurd h.1 hwidth⟩

/-- **The digit limit stops a comparison** exactly there. -/
theorem exists_compareTexts_digits_iff (hpos : 1 ≤ limit) :
    (∃ d, compareTexts text1 text2 limit = .error (.digits d)) ↔ PastLimit text1 text2 limit := by
  constructor
  · rintro ⟨d, h⟩
    rcases compareTexts_eq_error_iff.1 h with h | ⟨f, hf, h | ⟨g, hg, h⟩⟩
    · obtain ⟨t, ht, n, hn, hlimit⟩ := Formula.exists_compile_digits_iff.1 ⟨d, h⟩
      exact .first ht hn hlimit
    · obtain ⟨t, ht, n, hn, hlimit⟩ := Formula.exists_compile_digits_iff.1 ⟨d, h⟩
      exact .second hf ht hn hlimit
    · obtain ⟨hwidth, hd⟩ := (compare_eq_error_iff hf hg).1 h
      rw [Failure.tooManyVars_eq hpos hwidth] at hd
      split at hd
      · nomatch hd
      · rename_i hrows
        exact .rows hf hg hwidth (Bool.eq_false_iff.2 hrows)
  · rintro (⟨ht, hn, hlimit⟩ | ⟨hf, ht, hn, hlimit⟩ | ⟨hf, hg, hwidth, hrows⟩)
    · obtain ⟨d, h⟩ := Formula.exists_compile_digits_iff.2 ⟨_, ht, _, hn, hlimit⟩
      exact ⟨d, compareTexts_eq_error_iff.2 (.inl h)⟩
    · obtain ⟨d, h⟩ := Formula.exists_compile_digits_iff.2 ⟨_, ht, _, hn, hlimit⟩
      exact ⟨d, compareTexts_eq_error_iff.2 (.inr ⟨_, hf, .inl h⟩)⟩
    · have h := (compare_eq_error_iff hf hg).2 ⟨hwidth, rfl⟩
      rw [Failure.tooManyVars_eq hpos hwidth, if_neg (Bool.eq_false_iff.1 hrows)] at h
      exact ⟨.writing, compareTexts_eq_error_iff.2 (.inr ⟨_, hf, .inr ⟨_, hg, h⟩⟩)⟩

/-- **A comparison is refused** exactly for a reason of its own, unless the digit limit stops it. -/
theorem compareTexts_eq_expr_iff (hpos : 1 ≤ limit) {e : ExprError} :
    compareTexts text1 text2 limit = .error (.expr e) ↔
      Refuses text1 text2 limit e ∧ ¬ PastLimit text1 text2 limit := by
  constructor
  · intro h
    constructor
    · rcases compareTexts_eq_error_iff.1 h with h | ⟨f, hf, h | ⟨g, hg, h⟩⟩
      · exact .first (Formula.compile_eq_expr_iff.1 h)
      · exact .second hf (Formula.compile_eq_expr_iff.1 h)
      · obtain ⟨hwidth, he⟩ := (compare_eq_error_iff hf hg).1 h
        rw [Failure.tooManyVars_eq hpos hwidth] at he
        split at he
        · obtain rfl := Failure.expr.inj he
          exact .width hf hg hwidth
        · nomatch he
    · rw [← exists_compareTexts_digits_iff hpos]
      rintro ⟨d, hd⟩
      nomatch h.symm.trans hd
  · rintro ⟨h | ⟨hf, h⟩ | ⟨hf, hg, hwidth⟩, hlimit⟩
    · exact compareTexts_eq_error_iff.2 (.inl (Formula.compile_eq_expr_iff.2 h))
    · exact compareTexts_eq_error_iff.2 (.inr ⟨_, hf, .inl (Formula.compile_eq_expr_iff.2 h)⟩)
    · have hrows : Numeral.writable (2 ^ (Formula.union [_, _]).length) = true :=
        Bool.of_not_eq_false fun hrows => hlimit (.rows hf hg hwidth hrows)
      have h := (compare_eq_error_iff hf hg).2 ⟨hwidth, rfl⟩
      rw [Failure.tooManyVars_eq hpos hwidth, if_pos hrows] at h
      exact compareTexts_eq_error_iff.2 (.inr ⟨_, hf, .inr ⟨_, hg, h⟩⟩)

/-! ## The report -/

namespace Report

variable {room : Room} {s : Settings}

/-- **There is a report** unless the digit limit stops the comparison. -/
theorem exists_ofTexts_iff :
    (∃ r, ofTexts room text1 text2 s = .ok r) ↔
      ¬ ∃ d, compareTexts text1 text2 s.maxVars = .error (.digits d) := by
  rw [ofTexts]
  rcases compareTexts text1 text2 s.maxVars with (e | d) | ⟨f, g, rows⟩ <;> simp

/-- **A report with a refusal** is the report of a comparison that is refused. -/
theorem ofTexts_refused_iff {r : Report} {e : ExprError} :
    ofTexts room text1 text2 s = .ok r ∧ r.error = some e ↔
      compareTexts text1 text2 s.maxVars = .error (.expr e) ∧ r = refused s e := by
  rw [ofTexts]
  rcases compareTexts text1 text2 s.maxVars with (e' | d) | ⟨f, g, rows⟩
  · constructor
    · rintro ⟨h, he⟩
      obtain rfl := Except.ok.inj h
      obtain rfl : e' = e := Option.some.inj he
      exact ⟨rfl, rfl⟩
    · rintro ⟨h, rfl⟩
      obtain rfl := Failure.expr.inj (Except.error.inj h)
      exact ⟨rfl, rfl⟩
  · exact ⟨fun h => (nomatch h.1), fun h => (nomatch h.1)⟩
  · constructor
    · rintro ⟨h, he⟩
      obtain rfl := Except.ok.inj h
      nomatch he
    · exact fun h => (nomatch h.1)

/-- **Which comparisons have a report.**  With valid settings there is one unless the digit limit
stops the comparison; it carries a refusal exactly where the comparison is refused, and then it
shows nothing else. -/
theorem report_iff_not_pastLimit (room : Room) (hs : s.Valid) (text1 text2 : String) :
    ((∃ r, ofTexts room text1 text2 s = .ok r) ↔ ¬ PastLimit text1 text2 s.maxVars) ∧
    (∀ e, (∃ r, ofTexts room text1 text2 s = .ok r ∧ r.error = some e) ↔
      Refuses text1 text2 s.maxVars e ∧ ¬ PastLimit text1 text2 s.maxVars) ∧
    ∀ r, ofTexts room text1 text2 s = .ok r → r.error ≠ none →
      r.rows = [] ∧ r.names = [] ∧ r.markup1 = "" ∧ r.markup2 = "" := by
  refine ⟨?_, fun e => ?_, fun r hr herror => ?_⟩
  · rw [exists_ofTexts_iff, exists_compareTexts_digits_iff hs.1]
  · rw [← compareTexts_eq_expr_iff hs.1]
    simp only [ofTexts_refused_iff, exists_and_left, exists_eq, and_true]
  · obtain ⟨e, he⟩ := Option.ne_none_iff_exists'.1 herror
    obtain ⟨-, rfl⟩ := ofTexts_refused_iff.1 ⟨hr, he⟩
    exact ⟨rfl, rfl, rfl, rfl⟩

/-- An open parenthesis as the second text, with the default settings. -/
theorem report_iff_not_pastLimit_open :
    Settings.Valid {} ∧ ofTexts .standard "A" "(" {} = .ok (refused {} .mismatchedParens) ∧
      Refuses "A" "(" 20 .mismatchedParens ∧ ¬ PastLimit "A" "(" 20 := by
  have hs : Settings.Valid {} := by decide
  have hr : ofTexts .standard "A" "(" {} = .ok (refused {} .mismatchedParens) := by decide +kernel
  obtain ⟨-, hrefuses, -⟩ := report_iff_not_pastLimit .standard hs "A" "("
  exact ⟨hs, hr, (hrefuses _).1 ⟨_, hr, rfl⟩⟩

/-- A variable with a digit run past the limit leaves no report, whatever the second text. -/
theorem no_report_past_limit :
    let name := String.ofList ('A' :: List.replicate 4301 '1')
    Settings.Valid {} ∧ ∀ room text r, ofTexts room name text {} ≠ .ok r := by
  intro name
  refine ⟨by decide, fun room text r hr => ?_⟩
  have hname : name.toList = 'A' :: List.replicate 4301 '1' := String.toList_ofList
  have hones : ∀ c ∈ List.replicate 4301 '1', c = '1' := fun c hc => List.eq_of_mem_replicate hc
  have hident : IsIdentifier name :=
    ⟨'A', _, hname, by decide, fun c hc => hones c hc ▸ by decide⟩
  have hpast : ¬ VarName.WithinLimit name := by
    intro h
    have hle := h (List.replicate 4301 '1') ⟨['A'], [], by rw [hname, List.append_nil]; rfl⟩
      fun c hc => hones c hc ▸ by decide
    rw [List.length_replicate] at hle
    exact absurd hle (by decide)
  have hlimit : PastLimit name text 20 :=
    .first (Formula.spells_of_isIdentifier hident) (List.mem_singleton_self name) hpast
  exact exists_ofTexts_iff.1 ⟨r, hr⟩ ((exists_compareTexts_digits_iff (by decide)).2 hlimit)

end Report

end TruthTable
