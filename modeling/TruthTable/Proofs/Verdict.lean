import TruthTable.Proofs.Arguments
import TruthTable.Proofs.Report
import TruthTable.Proofs.Tabulation

/-!
# Proofs/Verdict — what the command tells about two expressions is so

The exit status, the summary and the table come from the same rows in different ways, and the row
numbers of the expressions from compiling them once more.  All of them speak of the valuations at
which the two formulas disagree.

* `Compares` — the comparison of two texts goes through.
* `Command.Verdict` — status, table and summary speak of where two formulas disagree.
* `Command.Tells` — what an outcome tells about two texts: a refusal, or a verdict.
* `Command.run_tells` — every run of the command that draws nothing.
-/

namespace TruthTable

/-! ## Comparisons that go through -/

/-- **The comparison of two texts goes through**: both have a formula, and the table is no wider
than the limit. -/
structure Compares (text1 text2 : String) (limit : Int) (f g : Formula) : Prop where
  left : Formula.compile text1 = .ok f
  right : Formula.compile text2 = .ok g
  width_le : (Formula.union [f, g]).length ≤ limit

variable {text1 text2 : String} {limit : Int} {f g : Formula}

/-- **All rows of two formulas.** -/
def Table.ofFormulas (f g : Formula) : List Row :=
  (Assignment.all (Formula.union [f, g])).map (rowOf f g)

/-- The report of two formulas with all their rows. -/
def Report.whole (room : Room) (s : Settings) (f g : Formula) : Report :=
  ofFormulas room s f g (Table.ofFormulas f g)

namespace Compares

theorem compareTexts_eq (h : Compares text1 text2 limit f g) :
    compareTexts text1 text2 limit = .ok (f, g, Table.ofFormulas f g) := by
  have hf := Formula.compile_eq_ok_iff.1 h.left
  have hg := Formula.compile_eq_ok_iff.1 h.right
  rw [compareTexts, h.left, h.right]
  refine bind_eq_ok_iff.2 ⟨f, rfl, bind_eq_ok_iff.2 ⟨g, rfl, bind_eq_ok_iff.2 ⟨_, ?_, rfl⟩⟩⟩
  exact Table.compare_eq_ok hf hg h.width_le

/-- Two texts have one pair of formulas. -/
theorem unique {f' g' : Formula} (h : Compares text1 text2 limit f g)
    (h' : Compares text1 text2 limit f' g') : f' = f ∧ g' = g :=
  ⟨Except.ok.inj (h'.left.symm.trans h.left), Except.ok.inj (h'.right.symm.trans h.right)⟩

end Compares

/-- **A comparison is refused or goes through**, where the digit limit does not stop it. -/
theorem refused_or_compares (hpos : 1 ≤ limit) (hlimit : ¬ PastLimit text1 text2 limit) :
    (∃ e, compareTexts text1 text2 limit = .error (.expr e)) ∨
      ∃ f g, Compares text1 text2 limit f g := by
  cases h : compareTexts text1 text2 limit with
  | error x =>
    cases x with
    | expr e => exact .inl ⟨e, rfl⟩
    | digits d => exact absurd ((exists_compareTexts_digits_iff hpos).1 ⟨d, h⟩) hlimit
  | ok r =>
    obtain ⟨f, hf, h⟩ := bind_eq_ok_iff.1 h
    obtain ⟨g, hg, h⟩ := bind_eq_ok_iff.1 h
    obtain ⟨rows, hrows, -⟩ := bind_eq_ok_iff.1 h
    refine .inr ⟨f, g, hf, hg, Int.not_lt.1 fun hwidth => ?_⟩
    rw [Table.compare_eq_error hwidth] at hrows
    nomatch hrows

namespace Command

/-! ## The outcome -/

/-- The settings of a command line are valid. -/
theorem settings_valid {w : World} {a : Arguments} {s : Settings} (h : settings w a = .ok s) :
    s.Valid := by
  obtain ⟨_, -, h⟩ := bind_eq_ok_iff.1 h
  exact Draft.valid_of_validate (mapError_eq_ok_iff.1 h)

variable {w : World} {argv : List String} {a : Arguments} {s : Settings}

/-- **Settings that are refused** end the command with the wording of the refusal. -/
theorem run_eq_config {e : ConfigError} (hargs : Arguments.parse argv = .ok a)
    (hs : settings w a = .error (.config e)) : run w argv =
      .ok (.finished { status := configStatus, err := ["config error: " ++ e.message] }) := by
  simp only [run, hargs, hs]

/-- With two texts and valid settings the command compares the texts. -/
theorem run_eq (hargs : Arguments.parse argv = .ok a)
    (htexts : a.expressions = [some text1, some text2]) (hs : settings w a = .ok s) :
    run w argv = Ending.finished <$> compare w a s text1 text2 := by
  simp only [run, hargs, hs, htexts]

/-- **The outcome of a comparison that is refused.** -/
theorem compare_refused {e : ExprError}
    (h : compareTexts text1 text2 s.maxVars = .error (.expr e)) :
    let noted := log a.verbose (Event.ofComparison w.room text1 text2 s)
    compare w a s text1 text2 =
      .ok { status := refusedStatus, err := noted ++ ["Parse error: " ++ e.message] } := by
  rw [compare, Report.ofTexts, h]
  rfl

/-- The event of a compilation is no warning. -/
theorem isWarning_ofCompilation {text : String} {event : Event}
    (h : event ∈ Event.ofCompilation text) : event.isWarning = false := by
  rw [Event.ofCompilation] at h
  split at h
  · rw [List.mem_singleton.1 h]
    rfl
  · nomatch h

/-- What is no warning is not logged where details are not asked for. -/
theorem log_eq_nil {events : List Event} (h : ∀ event ∈ events, event.isWarning = false) :
    log false events = [] := by
  rw [log, List.map_eq_nil_iff, List.filter_eq_nil_iff]
  intro event hevent
  rw [h event hevent]
  exact Bool.false_ne_true

/-- **A refusal leaves nothing in the log** where details are not asked for. -/
theorem log_refused {room : Room} {e : ExprError}
    (h : compareTexts text1 text2 s.maxVars = .error (.expr e)) :
    log false (Event.ofComparison room text1 text2 s) = [] := by
  rw [Event.ofComparison, h]
  refine log_eq_nil fun event hevent => ?_
  simp only [List.mem_append, List.mem_singleton] at hevent
  rcases hevent with (hevent | hevent) | rfl
  · exact isWarning_ofCompilation hevent
  · split at hevent
    · nomatch hevent
    · exact isWarning_ofCompilation hevent
  · rfl

/-- A formula has row numbers over columns that hold its variables. -/
theorem exists_mintermLine {text : String} {columns : List String} (name : String)
    (hf : Formula.compile text = .ok f) (hcolumns : ∀ n ∈ f.names, n ∈ columns) :
    ∃ line, mintermLine columns name text = .ok line := by
  have hvalues : (Assignment.all columns).mapM (fun a => f.eval a.value?) = .ok
      ((Assignment.all columns).map fun a => f.tree.truth fun n => (a.value? n).getD false) :=
    mapM_eq_ok fun a ha => (Formula.compile_eq_ok_iff.1 hf).eval_of_isSome fun n hn =>
      Assignment.isSome_value?_of_mem_all ha (hcolumns n hn)
  obtain ⟨indices, hindices⟩ : ∃ indices, f.truthIndices columns = .ok indices :=
    ⟨_, bind_eq_ok_iff.2 ⟨_, hvalues, rfl⟩⟩
  exact ⟨_, bind_eq_ok_iff.2 ⟨f, hf, bind_eq_ok_iff.2 ⟨_, mapError_eq_ok_iff.2 hindices, rfl⟩⟩⟩

/-- **The row numbers of both expressions** can be listed, and are listed where they are asked
for. -/
theorem exists_minterms (h : Compares text1 text2 limit f g) : ∃ line1 line2, ∀ a : Arguments,
    ∃ listed, minterms a (Formula.union [f, g]) text1 text2 = .ok listed ∧
      listed.out = if a.minterms then [line1, line2] else [] := by
  obtain ⟨line1, h1⟩ := exists_mintermLine "expr1" h.left fun n hn => Formula.mem_union.2 (.inl hn)
  obtain ⟨line2, h2⟩ := exists_mintermLine "expr2" h.right fun n hn => Formula.mem_union.2 (.inr hn)
  refine ⟨line1, line2, fun a => ?_⟩
  cases ha : a.minterms with
  | true =>
    rw [minterms, if_pos ha, h1, h2]
    exact ⟨_, rfl, rfl⟩
  | false =>
    rw [minterms, if_neg (ha ▸ Bool.false_ne_true)]
    exact ⟨_, rfl, rfl⟩

/-- **The outcome of a comparison that goes through**, where nothing is drawn. -/
theorem exists_compare_eq_ok (h : Compares text1 text2 s.maxVars f g) :
    ∃ line1 line2, ∀ a : Arguments, a.dot = none → ∃ o, compare w a s text1 text2 = .ok o ∧
      o.status = status (.whole w.room s f g) ∧
      o.out = (Report.whole w.room s f g).print ++ if a.minterms then [line1, line2] else [] := by
  obtain ⟨line1, line2, hlines⟩ := exists_minterms h
  refine ⟨line1, line2, fun a hdot => ?_⟩
  obtain ⟨listed, hlisted, hout⟩ := hlines a
  have hdrawing : drawing w a text1 = .ok {} := by
    rw [drawing, hdot]
    rfl
  have hreport : Report.ofTexts w.room text1 text2 s = .ok (.whole w.room s f g) := by
    rw [Report.ofTexts, h.compareTexts_eq]
    rfl
  rw [compare, hreport, ← hout]
  refine ⟨_, bind_eq_ok_iff.2 ⟨_, rfl, bind_eq_ok_iff.2 ⟨listed, ?_, bind_eq_ok_iff.2
    ⟨_, hdrawing, rfl⟩⟩⟩, rfl, rfl⟩
  exact mapError_eq_ok_iff.2 hlisted

/-! ## The verdict -/

/-- **The verdict on two formulas is right**: exit status, summary and table speak of the valuations
at which the formulas disagree, out of all valuations of their variables. -/
structure Verdict (s : Settings) (f g : Formula) (status : Nat) (table : List String)
    (summary : String) : Prop where
  equivalent : f.EquivalentOver (Formula.union [f, g]) g →
    status = 0 ∧ summary = "equivalent" ∧ (f.disagreements g).card = 0
  different : ¬ f.EquivalentOver (Formula.union [f, g]) g →
    status = 3 ∧ 1 ≤ (f.disagreements g).card ∧ summary =
      s!"{(f.disagreements g).card} of {2 ^ (Formula.union [f, g]).length} rows differ"
  tabulated : Report.Tabulated s.onlyDiff (2 ^ (Formula.union [f, g]).length)
    (f.disagreements g).card table

/-- **The report of two formulas tells the verdict.** -/
theorem verdict_whole (room : Room) (hf : f.CompiledFrom text1) (hg : g.CompiledFrom text2)
    (s : Settings) : Verdict s f g (status (.whole room s f g)) (Report.whole room s f g).printRows
      (Report.whole room s f g).summary := by
  let r := Report.whole room s f g
  have hlists : Table.Lists f g (Formula.union [f, g]) r.rows := Table.lists_rowOf hf hg
  have hcount : Table.differCount r.rows = (f.disagreements g).card := Table.differCount_eq hf hg
  have hequivalent : r.equivalent = true ↔ f.EquivalentOver (Formula.union [f, g]) g := by
    rw [Formula.equivalentOver_iff hf hg, ← Table.forall_same_iff hf hg]
    exact List.all_eq_true
  have hcard : (f.disagreements g).card = 0 ↔ f.EquivalentOver (Formula.union [f, g]) g := by
    rw [Finset.card_eq_zero, Formula.disagreements_eq_empty_iff hf hg]
  have hstatus : status r = if r.equivalent then equivalentStatus else differentStatus := rfl
  have hsummary : r.summary = if r.equivalent then "equivalent"
      else s!"{Table.differCount r.rows} of {r.rows.length} rows differ" := rfl
  constructor
  · intro h
    have hr := hequivalent.2 h
    rw [hstatus, hsummary, if_pos hr, if_pos hr]
    exact ⟨rfl, rfl, hcard.2 h⟩
  · intro h
    have hr := mt hequivalent.1 h
    rw [hstatus, hsummary, if_neg hr, if_neg hr, hcount, hlists.length_eq]
    exact ⟨rfl, Nat.one_le_iff_ne_zero.2 (mt hcard.1 h), rfl⟩
  · rw [← hcount, ← hlists.length_eq]
    refine @Report.tabulated_printRows r ?_ fun row hrow n hn => ?_
    · exact List.ne_nil_of_length_pos (hlists.length_eq ▸ Nat.two_pow_pos _)
    · obtain ⟨a, ha, rfl⟩ := List.mem_map.1 hrow
      exact Assignment.isSome_value?_of_mem_all ha hn

/-- **What an outcome tells about two texts is so.** -/
structure Tells (a : Arguments) (s : Settings) (text1 text2 : String) (o : Outcome) : Prop where
  /-- The texts are refused exactly where they cannot be compared. -/
  refused_iff : o.status = 1 ↔ ¬ ∃ f g, Compares text1 text2 s.maxVars f g
  /-- A refusal names its reason, and nothing else is told. -/
  refusal : o.status = 1 → ∃ e noted, Refuses text1 text2 s.maxVars e ∧ o.out = [] ∧
    o.err = noted ++ ["Parse error: " ++ e.message] ∧ (a.verbose = false → noted = [])
  /-- Three lines head the table, and behind the summary there are at most the two lines of the row
  numbers. -/
  verdict (f g : Formula) : Compares text1 text2 s.maxVars f g →
    ∃ heading table summary listed, o.out = heading ++ table ++ [summary] ++ listed ∧
      heading.length = 3 ∧ listed.length = (if a.minterms then 2 else 0) ∧
      Verdict s f g o.status table summary

/-- A refusal is told as it is. -/
theorem tells_of_refused (hpos : 1 ≤ s.maxVars) {e : ExprError}
    (he : compareTexts text1 text2 s.maxVars = .error (.expr e)) {o : Outcome}
    (ho : compare w a s text1 text2 = .ok o) : Tells a s text1 text2 o := by
  have hnot (f g : Formula) : ¬ Compares text1 text2 s.maxVars f g := fun h =>
    nomatch h.compareTexts_eq.symm.trans he
  rw [compare_refused he] at ho
  obtain rfl := Except.ok.inj ho
  have hrefuses := ((compareTexts_eq_expr_iff hpos).1 he).1
  constructor
  · exact iff_of_true rfl fun ⟨f, g, h⟩ => hnot f g h
  · refine fun _ => ⟨e, _, hrefuses, rfl, rfl, fun hverbose => ?_⟩
    rw [hverbose]
    exact log_refused he
  · exact fun f g h => absurd h (hnot f g)

/-- The verdict on two formulas is told as it is. -/
theorem tells_of_compares (h : Compares text1 text2 s.maxVars f g) {line1 line2 : String}
    {room : Room} {o : Outcome} (hstatus : o.status = status (.whole room s f g))
    (hout : o.out = (Report.whole room s f g).print ++ if a.minterms then [line1, line2] else []) :
    Tells a s text1 text2 o := by
  have hverdict := verdict_whole room (Formula.compile_eq_ok_iff.1 h.left)
    (Formula.compile_eq_ok_iff.1 h.right) s
  rw [← hstatus] at hverdict
  have hne : o.status ≠ 1 := by
    by_cases heq : f.EquivalentOver (Formula.union [f, g]) g
    · exact ne_of_eq_of_ne (hverdict.equivalent heq).1 (by decide)
    · exact ne_of_eq_of_ne (hverdict.different heq).1 (by decide)
  constructor
  · exact iff_of_false hne (not_not_intro ⟨f, g, h⟩)
  · exact fun ho => absurd ho hne
  · intro f' g' h'
    obtain ⟨rfl, rfl⟩ := h.unique h'
    exact ⟨_, _, _, _, hout, rfl, apply_ite List.length _ _ _, hverdict⟩

/-- **Every comparison tells what is so**, and the flag for the row numbers adds to its output
without changing the rest. -/
theorem exists_compare_tells (hpos : 1 ≤ s.maxVars) (hlimit : ¬ PastLimit text1 text2 s.maxVars)
    (hdot : a.dot = none) : ∃ o o', compare w a s text1 text2 = .ok o ∧ Tells a s text1 text2 o ∧
      compare w a.withMinterms s text1 text2 = .ok o' ∧ o'.status = o.status ∧
      o.out <+: o'.out := by
  rcases refused_or_compares hpos hlimit with ⟨e, he⟩ | ⟨f, g, h⟩
  · have ho {a : Arguments} := @compare_refused _ _ w a s e he
    exact ⟨_, _, ho, tells_of_refused hpos he ho, ho, rfl, List.nil_prefix⟩
  · obtain ⟨line1, line2, hlines⟩ := exists_compare_eq_ok h
    obtain ⟨o, ho, hstatus, hout⟩ := hlines a hdot
    obtain ⟨o', ho', hstatus', hout'⟩ := hlines a.withMinterms hdot
    refine ⟨o, o', ho, tells_of_compares h hstatus hout, ho', hstatus'.trans hstatus.symm, ?_⟩
    rw [hout, hout', List.prefix_append_right_inj]
    split
    · exact List.prefix_rfl
    · exact List.nil_prefix

/-- **What the command tells about two texts.**  With two texts and valid settings, no drawing and
the digit limit aside, the command ends and tells what is so.  The flag for the row numbers, put
first or wherever else it is read as a flag, changes neither the status nor the output that there
was without it. -/
theorem run_tells (hargs : Arguments.parse argv = .ok a)
    (htexts : a.expressions = [some text1, some text2]) (hdot : a.dot = none)
    (hs : settings w a = .ok s) (hlimit : ¬ PastLimit text1 text2 s.maxVars) :
    ∃ o, run w argv = .ok (.finished o) ∧ Tells a s text1 text2 o ∧
      (∃ a', Arguments.parse ("--minterms" :: argv) = .ok a') ∧
      ∀ before after a', argv = before ++ after → "--" ∉ before →
        Arguments.parse (before ++ "--minterms" :: after) = .ok a' →
        ∃ o', run w (before ++ "--minterms" :: after) = .ok (.finished o') ∧
          o'.status = o.status ∧ o.out <+: o'.out := by
  obtain ⟨o, o', ho, htells, ho', hstatus, hout⟩ :=
    exists_compare_tells (settings_valid hs).1 hlimit hdot
  have hsome : none ∉ a.expressions := by
    rw [htexts]
    simp
  refine ⟨o, ?_, htells, ⟨_, Arguments.parse_minterms_cons hargs⟩, ?_⟩
  · rw [run_eq hargs htexts hs, ho]
    rfl
  · rintro before after a' rfl hbefore hargs'
    obtain rfl := Arguments.parse_minterms_insert hargs hsome hbefore hargs'
    refine ⟨o', ?_, hstatus, hout⟩
    rw [run_eq hargs' htexts hs, ho']
    rfl

/-- A run that shows the one row that differs, of four. -/
theorem run_tells_diff :
    let w : World :=
      { environment := fun _ => none, files := fun _ => .bytes [], program := .missing }
    let argv := ["A^B", "A+B", "--diff"]
    ∃ a s o, Arguments.parse argv = .ok a ∧ a.expressions = [some "A^B", some "A+B"] ∧
      a.dot = none ∧ settings w a = .ok s ∧ ¬ PastLimit "A^B" "A+B" s.maxVars ∧
      run w argv = .ok (.finished o) ∧ Tells a s "A^B" "A+B" o ∧ o.status = 3 ∧
      o.out.getLast? = some "1 of 4 rows differ" := by
  intro w argv
  have hread : ((Arguments.parse argv).toOption.bind fun a => (settings w a).toOption.map fun s =>
      (a.expressions, a.dot, s)) =
        some ([some "A^B", some "A+B"], none, { onlyDiff := true }) := by
    decide +kernel
  have hrun : (run w argv).toOption = some (.finished {
      status := 3
      out := ["expr1: A \\oplus B", "expr2: A + B", "Variables: A, B", "A B expr1 expr2",
        "1 1 0     1     DIFF", "1 of 4 rows differ"] }) := by
    decide +kernel
  have hcompare : (compareTexts "A^B" "A+B" 20).toOption.isSome = true := by decide +kernel
  obtain ⟨a, ha, hread⟩ := Option.bind_eq_some_iff.1 hread
  obtain ⟨s, hs, hread⟩ := Option.map_eq_some_iff.1 hread
  obtain ⟨htexts, hdot, rfl⟩ : a.expressions = _ ∧ a.dot = _ ∧ s = _ := by
    simpa only [Prod.mk.injEq] using hread
  have hargs : Arguments.parse argv = .ok a := toOption_eq_some_iff.1 ha
  have hs : settings w a = .ok { onlyDiff := true } := toOption_eq_some_iff.1 hs
  have hlimit : ¬ PastLimit "A^B" "A+B" 20 := by
    rw [← exists_compareTexts_digits_iff (by decide)]
    rintro ⟨d, hd⟩
    rw [hd] at hcompare
    nomatch hcompare
  obtain ⟨o, ho, htells, -⟩ := run_tells hargs htexts hdot hs hlimit
  obtain rfl := Ending.finished.inj (Except.ok.inj (ho.symm.trans (toOption_eq_some_iff.1 hrun)))
  exact ⟨a, _, _, hargs, htexts, hdot, hs, hlimit, ho, htells, rfl, rfl⟩

end Command

end TruthTable
