import TruthTable.Proofs.Arguments.Path
import TruthTable.Proofs.RoundTrip
import TruthTable.Proofs.Verdict

/-!
# Proofs/Drawing — a drawing leaves the verdict alone

With a path to draw to the command does all that it does without, and then it draws.  Whatever
becomes of the drawing, the status and the output are there already, and one message is all that a
failure leaves.  Only a tree with no room for going down it breaks the command off, where without
the path it ends.

* `Finishes` — how a run comes to its end.
* `Draws`, `Overdeep` — where a run comes to the drawing, and where it breaks off there.
* `Traces` — what a path to draw to leaves on the error stream.
* `run_drawing` — a run with a path to draw to against the run without.
-/

namespace TruthTable

namespace Command

open Arguments

/-! ## How a run comes to its end -/

/-- **The outcome of a command line that is read**: its settings are refused, its texts are
compared, or the first text is refused where the second one is missing. -/
inductive Finishes (w : World) (a : Arguments) : Outcome → Prop
  | config {e} (hs : settings w a = .error (.config e)) :
    Finishes w a { status := configStatus, err := ["config error: " ++ e.message] }
  | texts {s text1 text2 o} (hs : settings w a = .ok s)
    (htexts : a.expressions = [some text1, some text2]) (ho : compare w a s text1 text2 = .ok o) :
    Finishes w a o
  | missing {s text1 rest o} (hs : settings w a = .ok s)
    (htexts : a.expressions = some text1 :: rest) (hrest : ∀ text2, rest ≠ [some text2])
    (ho : compareMissing a text1 = .ok o) : Finishes w a o

variable {w : World} {a a' : Arguments} {s : Settings} {argv : List String} {o : Outcome}
  {text1 text2 path : String} {f g : Formula}

/-- Where there is no second text, the command tells a refusal of the first one at most. -/
theorem run_eq_missing {rest : List (Option String)} (hargs : parse argv = .ok a)
    (hs : settings w a = .ok s) (htexts : a.expressions = some text1 :: rest)
    (hrest : ∀ text2, rest ≠ [some text2]) :
    run w argv = Ending.finished <$> compareMissing a text1 := by
  simp only [run, hargs, hs, htexts]

theorem finishes_of_run (hargs : parse argv = .ok a) (h : run w argv = .ok (.finished o)) :
    Finishes w a o := by
  rw [run, hargs] at h
  dsimp only at h
  split at h
  · rename_i hs
    obtain rfl := Ending.finished.inj (Except.ok.inj h)
    exact .config hs
  · cases h
  · rename_i s hs
    split at h
    · rename_i htexts
      obtain ⟨o', ho, h⟩ := map_eq_ok_iff.1 h
      obtain rfl := Ending.finished.inj h
      exact .texts hs htexts ho
    · rename_i hrest htexts
      obtain ⟨o', ho, h⟩ := map_eq_ok_iff.1 h
      obtain rfl := Ending.finished.inj h
      exact .missing hs htexts (fun text2 => hrest text2) ho
    · cases h

/-! ## What a drawing adds -/

/-- The tree of a formula is drawn, if there is room for going down it. -/
theorem drawTree_eq (w : World) (path : String) (hf : Formula.compile text1 = .ok f) :
    drawTree w path text1 =
      if w.room.allows .graph f.tree then
        .ok (Diagram.draw w.program path ((Diagram.ofExpr Diagram.Sketch.library f.tree).dot {}))
      else .error .tooDeep := by
  have hstart : drawTree w path text1 =
      ((f.tree.bounded w.room .graph (Diagram.ofExpr Diagram.Sketch.library)).mapError
        fun _ => .tooDeep) >>= fun d => .ok (Diagram.draw w.program path (d.dot {})) := by
    rw [drawTree, hf]
    rfl
  rw [hstart, Expr.bounded]
  cases w.room.allows .graph f.tree <;> rfl

/-- **A path that is not empty** is drawn to. -/
theorem drawing_eq (w : World) (text : String) (hdot : a.dot = some path)
    (hpath : path ≠ "") : drawing w a text =
      (fun d => { err := log a.verbose (Event.ofCompilation text) ++ drawingErrors path d,
                  calls := d.calls }) <$> drawTree w path text := by
  have hfilter : a.dot.filter (· ≠ "") = some path := by
    rw [hdot, Option.filter_some, if_pos (decide_eq_true hpath)]
  rw [drawing, hfilter]
  dsimp only
  cases drawTree w path text <;> rfl

/-- Without a path, or with an empty one, nothing is drawn. -/
theorem drawing_eq_nil (text : String) (h : ∀ path, a.dot = some path → path = "") :
    drawing w a text = .ok {} := by
  have hfilter : a.dot.filter (· ≠ "") = none := by
    rw [Option.filter_eq_none_iff]
    exact fun path hpath => by simp [h path hpath]
  rw [drawing, hfilter]

/-- The status of two formulas is a verdict. -/
theorem status_ofFormulas (room : Room) (s : Settings) (f g : Formula) (rows : List Row) :
    status (.ofFormulas room s f g rows) = equivalentStatus ∨
      status (.ofFormulas room s f g rows) = differentStatus := by
  let r := Report.ofFormulas room s f g rows
  have hstatus : status r = if r.equivalent then equivalentStatus else differentStatus := rfl
  rw [hstatus]
  exact (ite_eq_or_eq _ _ _)

/-- **What a path to draw to adds to a comparison**: nothing where the comparison is refused, and
else a drawing. -/
theorem compare_drawing (hdot : a.dot = none) (hminterms : a'.minterms = a.minterms)
    (hverbose : a'.verbose = a.verbose) (h : compare w a s text1 text2 = .ok o) :
    (o.status = refusedStatus ∧ compare w a' s text1 text2 = .ok o) ∨
    ((o.status = equivalentStatus ∨ o.status = differentStatus) ∧
      (∃ f, Formula.compile text1 = .ok f) ∧ compare w a' s text1 text2 =
        (fun d => { o with err := o.err ++ d.err, calls := d.calls }) <$>
          drawing w a' text1) := by
  cases hcompare : compareTexts text1 text2 s.maxVars with
  | error x =>
    cases x with
    | expr e =>
      rw [compare_refused hcompare] at h
      obtain rfl := Except.ok.inj h
      exact .inl ⟨rfl, hverbose ▸ compare_refused hcompare⟩
    | digits d =>
      rw [compare, Report.ofTexts, hcompare] at h
      cases h
  | ok r =>
    obtain ⟨f, g, rows⟩ := r
    obtain ⟨f', hf, -⟩ := bind_eq_ok_iff.1 hcompare
    let r := Report.ofFormulas w.room s f g rows
    let noted := log a.verbose (Event.ofComparison w.room text1 text2 s)
    have hpresent (b : Arguments) (hb : b.verbose = a.verbose) :
        compare w b s text1 text2 =
          ((minterms b r.names text1 text2).mapError .failure) >>= fun listed =>
            drawing w b text1 >>= fun drawn =>
              .ok { status := status r, out := r.print ++ listed.out,
                    err := noted ++ listed.err ++ drawn.err, calls := drawn.calls } := by
      rw [compare, Report.ofTexts, hcompare, hb]
      rfl
    have hidle : drawing w a text1 = .ok {} :=
      drawing_eq_nil text1 fun path hpath =>
        absurd (hpath.symm.trans hdot) (Option.some_ne_none path)
    have hsame : minterms a' r.names text1 text2 = minterms a r.names text1 text2 := by
      rw [minterms, minterms, hminterms, hverbose]
    rw [hpresent a rfl, bind_eq_ok_iff] at h
    obtain ⟨listed, hlisted, h⟩ := h
    rw [hidle] at h
    obtain rfl := Except.ok.inj h
    refine .inr ⟨?_, ⟨f', hf⟩, ?_⟩
    · exact status_ofFormulas w.room s f g rows
    · rw [hpresent a' hverbose, hsame, hlisted]
      cases drawing w a' text1 with
      | error c => rfl
      | ok d => simp [bind, Except.bind, Functor.map, Except.map]

/-! ## The outcome with a drawing -/

/-- **A drawing is come to**: the expressions are compared, and a path is given that is not
empty. -/
structure Draws (a : Arguments) (o : Outcome) : Prop where
  compared : o.status = equivalentStatus ∨ o.status = differentStatus
  exists_path : ∃ path, a.dot = some path ∧ path ≠ ""

/-- **The first expression is too deep for the drawing**: there is no room for going down it. -/
structure Overdeep (w : World) (a : Arguments) (o : Outcome) : Prop extends Draws a o where
  deep : ∃ text f, a.expressions.head? = some (some text) ∧ Formula.compile text = .ok f ∧
    w.room.allows .graph f.tree = false

/-- **What a path to draw to leaves on the error stream**: nothing where no drawing is come to, and
else what the log notes, if details are asked for, and the message of a drawing that fails. -/
structure Traces (program : Diagram.Program) (path : String) (a : Arguments) (o : Outcome)
    (lines : List String) : Prop where
  idle : ¬ Draws a o → lines = []
  drawn : Draws a o → ∃ noted input, (a.verbose = false → noted = []) ∧
    lines = noted ++ drawingErrors path (Diagram.draw program path input)

theorem Draws.status_ne (h : Draws a o) :
    o.status ≠ refusedStatus ∧ o.status ≠ configStatus := by
  rcases h.compared with h | h <;> rw [h] <;> decide

theorem overdeep_iff {rest : List (Option String)} (htexts : a.expressions = some text1 :: rest)
    (hf : Formula.compile text1 = .ok f) :
    Overdeep w a o ↔ Draws a o ∧ w.room.allows .graph f.tree = false := by
  constructor
  · rintro ⟨hdraws, text, f', htext, hf', hdeep⟩
    rw [htexts] at htext
    obtain rfl := Option.some.inj (Option.some.inj htext)
    obtain rfl := Except.ok.inj (hf.symm.trans hf')
    exact ⟨hdraws, hdeep⟩
  · rintro ⟨hdraws, hdeep⟩
    exact ⟨hdraws, text1, f, by rw [htexts]; rfl, hf, hdeep⟩

/-- A run that comes to no drawing leaves nothing more. -/
theorem traces_nil {program : Diagram.Program} (h : ¬ Draws a o) : Traces program path a o [] :=
  ⟨fun _ => rfl, fun hdraws => absurd hdraws h⟩

/-- **A comparison with a drawing** breaks off where the tree is too deep, and ends as it did
else. -/
theorem compare_drawn (hdot : a.dot = none) (ha : Drawn path a a')
    (htexts : a'.expressions = [some text1, some text2]) (h : compare w a s text1 text2 = .ok o) :
    (Overdeep w a' o → compare w a' s text1 text2 = .error .tooDeep) ∧
    (¬ Overdeep w a' o → ∃ o' lines, compare w a' s text1 text2 = .ok o' ∧ o'.status = o.status ∧
      o'.out = o.out ∧ o'.err = o.err ++ lines ∧ Traces w.program path a' o lines) := by
  have hminterms : a'.minterms = a.minterms := by rw [ha.eq_of]
  have hverbose : a'.verbose = a.verbose := by rw [ha.eq_of]
  obtain ⟨hstatus, h'⟩ | ⟨hstatus, ⟨f, hf⟩, h'⟩ := compare_drawing hdot hminterms hverbose h
  · have hidle : ¬ Draws a' o := fun hdraws => hdraws.status_ne.1 hstatus
    exact ⟨fun hover => absurd hover.toDraws hidle,
      fun _ => ⟨o, [], h', rfl, rfl, (List.append_nil _).symm, traces_nil hidle⟩⟩
  · have hoverdeep := overdeep_iff (w := w) (o := o) htexts hf
    by_cases hdraws : Draws a' o
    · obtain ⟨path', hpath, hne⟩ := hdraws.exists_path
      obtain rfl : path' = path := by
        rcases ha.dot_eq with hnone | hsome
        · nomatch hnone.symm.trans hpath
        · exact Option.some.inj (hpath.symm.trans hsome)
      rw [drawing_eq w text1 hpath hne, drawTree_eq w path' hf] at h'
      cases hroom : w.room.allows .graph f.tree with
      | false =>
        rw [hroom] at h'
        exact ⟨fun _ => h', fun hnot => absurd (hoverdeep.2 ⟨hdraws, hroom⟩) hnot⟩
      | true =>
        rw [hroom] at h'
        refine ⟨fun hover => ?_, fun _ => ?_⟩
        · nomatch hroom.symm.trans (hoverdeep.1 hover).2
        refine ⟨_, _, h', rfl, rfl, rfl, fun hidle => absurd hdraws hidle, fun _ => ?_⟩
        refine ⟨_, _, fun hfalse => ?_, rfl⟩
        rw [hfalse]
        exact log_eq_nil fun _ => isWarning_ofCompilation
    · have hidle : drawing w a' text1 = .ok {} := drawing_eq_nil text1 fun path hpath =>
        not_not.1 fun hne => hdraws ⟨hstatus, path, hpath, hne⟩
      rw [hidle] at h'
      exact ⟨fun hover => absurd hover.toDraws hdraws,
        fun _ => ⟨_, [], h', rfl, rfl, rfl, traces_nil hdraws⟩⟩

/-- With no second text, the command tells a refusal of the first one, and nothing else. -/
theorem compareMissing_eq_ok_iff : compareMissing a text1 = .ok o ↔
    ∃ e, Formula.compile text1 = .error (.expr e) ∧
      o = { status := refusedStatus,
            err := log a.verbose [.refused text1 none e] ++ ["Parse error: " ++ e.message] } := by
  rw [compareMissing]
  rcases Formula.compile text1 with (e | d) | f
  · constructor
    · exact fun h => ⟨e, rfl, (Except.ok.inj h).symm⟩
    · rintro ⟨e', he, rfl⟩
      obtain rfl := Failure.expr.inj (Except.error.inj he)
      rfl
  · exact ⟨fun h => (nomatch h), fun ⟨_, h, _⟩ => (nomatch h)⟩
  · exact ⟨fun h => (nomatch h), fun ⟨_, h, _⟩ => (nomatch h)⟩

/-- **A refusal of the first text** stays one, whatever text is found for the second. -/
theorem compare_of_compareMissing (hverbose : a'.verbose = a.verbose)
    (h : compareMissing a text1 = .ok o) (s : Settings) (text2 : String) :
    ∃ o', compare w a' s text1 text2 = .ok o' ∧ o'.status = o.status ∧ o'.out = o.out ∧
      (a.verbose = false → o'.err = o.err) := by
  obtain ⟨e, he, rfl⟩ := compareMissing_eq_ok_iff.1 h
  have hcompare : compareTexts text1 text2 s.maxVars = .error (.expr e) :=
    compareTexts_eq_error_iff.2 (.inl he)
  refine ⟨_, compare_refused hcompare, rfl, rfl, fun hfalse => ?_⟩
  rw [hverbose, hfalse, log_refused hcompare]
  rfl

/-- **A run with a drawing** breaks off where the tree is too deep, and ends as it did else. -/
theorem Finishes.run_drawn (h : Finishes w a o) (hdot : a.dot = none) (ha : Drawn path a a')
    (hargs : parse argv = .ok a') :
    (Overdeep w a' o → run w argv = .error .tooDeep) ∧
    (¬ Overdeep w a' o → ∃ o', run w argv = .ok (.finished o') ∧ o'.status = o.status ∧
      o'.out = o.out ∧ ((a.verbose = true → a'.expressions = a.expressions) →
        ∃ lines, o'.err = o.err ++ lines ∧ Traces w.program path a' o lines)) := by
  have hsettings : settings w a' = settings w a := by
    rw [ha.eq_of]
    rfl
  have hverbose : a'.verbose = a.verbose := by rw [ha.eq_of]
  cases h with
  | config hs =>
    rw [← hsettings] at hs
    refine ⟨fun hover => absurd rfl hover.status_ne.2, fun _ => ?_⟩
    exact ⟨_, run_eq_config hargs hs, rfl, rfl,
      fun _ => ⟨[], rfl, traces_nil fun hdraws => hdraws.status_ne.2 rfl⟩⟩
  | texts hs htexts ho =>
    have hsome : none ∉ a.expressions := by simp [htexts]
    have htexts' := (ha.filled.eq hsome).trans htexts
    obtain ⟨hdeep, hdrawn⟩ := compare_drawn hdot ha htexts' ho
    rw [run_eq hargs htexts' (hsettings.trans hs)]
    refine ⟨fun hover => ?_, fun hnot => ?_⟩
    · rw [hdeep hover]
      rfl
    · obtain ⟨o', lines, ho', hstatus, hout, herr, htraces⟩ := hdrawn hnot
      exact ⟨o', by rw [ho']; rfl, hstatus, hout, fun _ => ⟨lines, herr, htraces⟩⟩
  | @missing s text1 rest _ hs htexts hrest ho =>
    obtain ⟨e, he, rfl⟩ := compareMissing_eq_ok_iff.1 ho
    obtain ⟨rest', htexts', hfilled⟩ := (htexts ▸ ha.filled).exists_cons
    rw [← hsettings] at hs
    refine ⟨fun hover => absurd rfl hover.status_ne.1, fun _ => ?_⟩
    by_cases hsecond : ∃ text2, rest' = [some text2]
    · obtain ⟨text2, rfl⟩ := hsecond
      obtain ⟨o', ho', hstatus, hout, herr⟩ :=
        compare_of_compareMissing (w := w) hverbose ho s text2
      refine ⟨o', by rw [run_eq hargs htexts' hs, ho']; rfl, hstatus, hout, fun hkept => ?_⟩
      have hfalse : a.verbose = false := Bool.eq_false_iff.2 fun htrue => by
        have hsame := hkept htrue
        rw [htexts, htexts'] at hsame
        exact hrest text2 (List.cons.inj hsame).2.symm
      exact ⟨[], by rw [herr hfalse, List.append_nil],
        traces_nil fun hdraws => hdraws.status_ne.1 rfl⟩
    · have hsame : compareMissing a' text1 = compareMissing a text1 := by
        rw [compareMissing, compareMissing, hverbose]
      rw [run_eq_missing hargs hs htexts' fun text2 h => hsecond ⟨text2, h⟩, hsame, ho]
      exact ⟨_, rfl, rfl, rfl, fun _ =>
        ⟨[], (List.append_nil _).symm, traces_nil fun hdraws => hdraws.status_ne.1 rfl⟩⟩

/-- **What a path to draw to changes.**  Where a command line with no path ends in a status, a path
may be put first in one argument, and in one or two wherever else it is read.  Then the run breaks
off where the first expression is too deep for the drawing, however much room there is.  Else it
ends with the same status and the same output, and with one message more if the drawing fails. -/
theorem run_drawing (hargs : parse argv = .ok a) (hdot : a.dot = none)
    (hrun : run w argv = .ok (.finished o)) (path : String) :
    (∃ a', parse (("--dot=" ++ path) :: argv) = .ok a') ∧
    ∀ before added after a', argv = before ++ after → "--" ∉ before → GivesPath path added →
      parse (before ++ (added ++ after)) = .ok a' →
      (Overdeep w a' o → run w (before ++ (added ++ after)) = .error .tooDeep) ∧
      (¬ Overdeep w a' o → ∃ o', run w (before ++ (added ++ after)) = .ok (.finished o') ∧
        o'.status = o.status ∧ o'.out = o.out ∧
        ((a.verbose = true → a'.expressions = a.expressions) →
          ∃ lines, o'.err = o.err ++ lines ∧ Traces w.program path a' o lines)) := by
  constructor
  · obtain ⟨c, -, h⟩ := parse_cons GivesPath.joined.adds hargs
    exact ⟨_, h⟩
  · rintro before added after a' rfl hbefore hadded hargs'
    have hdrawn := hadded.drawn hdot hargs hbefore hargs'
    exact (finishes_of_run hargs hrun).run_drawn hdot hdrawn hargs'

/-- A path to draw to between the expressions, without a drawing program. -/
theorem run_drawing_missing :
    let w : World :=
      { environment := fun _ => none, files := fun _ => .bytes [], program := .missing }
    let argv := ["A^B", "A+B"]
    let drawn := ["A^B", "--dot", "tree.svg", "A+B"]
    ∃ a o a' o', parse argv = .ok a ∧ a.dot = none ∧ run w argv = .ok (.finished o) ∧
      parse drawn = .ok a' ∧ ¬ Overdeep w a' o ∧ run w drawn = .ok (.finished o') ∧
      o'.status = 3 ∧ o'.out = o.out := by
  intro w argv drawn
  have hread : (parse argv).toOption.map (·.dot) = some none := by decide +kernel
  have hread' : (parse drawn).toOption.map (·.expressions.head?) = some (some (some "A^B")) := by
    decide +kernel
  have hroom : (Formula.compile "A^B").toOption.map (fun f => w.room.allows .graph f.tree) =
      some true := by
    decide +kernel
  have hrun : (run w argv).toOption = some (.finished {
      status := 3
      out := ["expr1: A \\oplus B", "expr2: A + B", "Variables: A, B", "A B expr1 expr2",
        "0 0 0     0     ok", "0 1 1     1     ok", "1 0 1     1     ok", "1 1 0     1     DIFF",
        "1 of 4 rows differ"] }) := by
    decide +kernel
  obtain ⟨a, ha, hdot⟩ := Option.map_eq_some_iff.1 hread
  obtain ⟨a', ha', hhead⟩ := Option.map_eq_some_iff.1 hread'
  obtain ⟨f, hf, hroom⟩ := Option.map_eq_some_iff.1 hroom
  have hargs : parse argv = .ok a := toOption_eq_some_iff.1 ha
  have hargs' : parse drawn = .ok a' := toOption_eq_some_iff.1 ha'
  have hrun : run w argv = .ok (.finished _) := toOption_eq_some_iff.1 hrun
  obtain ⟨-, hinsert⟩ := run_drawing hargs hdot hrun "tree.svg"
  obtain ⟨-, hends⟩ := hinsert ["A^B"] _ ["A+B"] a' rfl (by decide) .apart hargs'
  have hnot (o : Outcome) : ¬ Overdeep w a' o := fun hover => by
    obtain ⟨text, f', htext, hf', hdeep⟩ := hover.deep
    obtain rfl := Option.some.inj (Option.some.inj (hhead.symm.trans htext))
    obtain rfl := Except.ok.inj ((toOption_eq_some_iff.1 hf).symm.trans hf')
    nomatch hroom.symm.trans hdeep
  obtain ⟨o', ho', hstatus, hout, -⟩ := hends (hnot _)
  exact ⟨a, _, a', o', hargs, hdot, hrun, hargs', hnot _, ho', hstatus, hout⟩

/-! ## A tree that is too deep -/

/-- **A variable under that many negations.** -/
def negations : Nat → Expr
  | 0 => .var "A"
  | n + 1 => .not (negations n)

theorem occurrences_negations : ∀ n, (negations n).occurrences = ["A"]
  | 0 => rfl
  | n + 1 => occurrences_negations n

theorem depth_negations : ∀ n, (negations n).depth = n + 1
  | 0 => rfl
  | n + 1 => congrArg (· + 1) (depth_negations n)

theorem leftNest_negations : ∀ n, (negations n).leftNest = negations n
  | 0 => rfl
  | n + 1 => congrArg Expr.not (leftNest_negations n)

theorem toList_toText_negations : ∀ n,
    (negations n).toText.toList = 'A' :: List.replicate n '\''
  | 0 => rfl
  | n + 1 => by
    have htakes : (negations n).takesPrime = true := by cases n <;> rfl
    rw [negations, Expr.toText, htakes, String.toList_append, Expr.paren, if_neg (by decide),
      toList_toText_negations n, List.replicate_succ']
    rfl

theorem startsWith_toText_negations (n : Nat) :
    (negations n).toText.startsWith "-" = false := by
  rw [String.startsWith_string_eq_false_iff, toList_toText_negations]
  exact fun h => absurd (List.cons_prefix_cons.1 h).1 (by decide)

/-- The text of many negations compiles to their tree. -/
theorem exists_compile_negations (n : Nat) :
    ∃ f, Formula.compile (negations n).toText = .ok f ∧ f.tree = negations n ∧
      f.names = VarName.sort ["A"] := by
  have hnames : ∀ m ∈ (negations n).occurrences, IsIdentifier m ∧ VarName.WithinLimit m := by
    rw [occurrences_negations]
    decide +kernel
  obtain ⟨f, hf, ⟨htree, -⟩, ⟨hsort, -⟩, -⟩ :=
    (Formula.spells_toText fun m hm => (hnames m hm).1).exists_compile_leftNest
      fun m hm => (hnames m hm).2
  rw [leftNest_negations] at htree
  rw [occurrences_negations] at hsort
  exact ⟨f, hf, htree, hsort⟩

/-- **A drawing takes the verdict away** where there is no room for going down the tree. -/
theorem run_drawing_negations :
    let w : World :=
      { environment := fun _ => none, files := fun _ => .bytes [], program := .missing }
    let text := String.ofList ('A' :: List.replicate 1500 '\'')
    (∃ o, run w [text, "A"] = .ok (.finished o)) ∧
      run w ["--dot=tree.svg", text, "A"] = .error .tooDeep := by
  intro w text
  have htext : text = (negations 1500).toText := by
    rw [← String.toList_inj, toList_toText_negations, String.toList_ofList]
  clear_value text
  obtain ⟨f, hf, htree, hfnames⟩ := exists_compile_negations 1500
  obtain ⟨g, hg, -, hgnames⟩ := exists_compile_negations 0
  rw [← htext] at hf
  have hcompares : Compares text "A" ({} : Settings).maxVars f g := by
    refine ⟨hf, hg, ?_⟩
    rw [Formula.union, List.flatMap_cons, List.flatMap_singleton, hfnames, hgnames]
    decide +kernel
  have hdash : text.startsWith "-" = false := htext ▸ startsWith_toText_negations 1500
  have hdash' : "A".startsWith "-" = false := startsWith_toText_negations 0
  have hs : settings w {} = .ok {} :=
    toOption_eq_some_iff.1 (show (settings w {}).toOption = some {} by decide +kernel)
  obtain ⟨line1, line2, hlines⟩ := exists_compare_eq_ok (w := w) hcompares
  let a : Arguments := { expressions := [some text, some "A"] }
  let a' : Arguments := { a with dot := some "tree.svg" }
  have hargs : parse [text, "A"] = .ok a := parse_texts hdash hdash'
  have hadds : Adds (drawTo "tree.svg") ["--dot=tree.svg"] := GivesPath.joined.adds
  have hargs' : parse ["--dot=tree.svg", text, "A"] = .ok a' :=
    parse_option_texts hadds hdash hdash'
  have hdot : a.dot = none := rfl
  have hminterms : a'.minterms = a.minterms := rfl
  have hverbose : a'.verbose = a.verbose := rfl
  obtain ⟨o, ho, hstatus, -⟩ := hlines a hdot
  refine ⟨⟨o, by rw [run_eq hargs rfl hs, ho]; rfl⟩, ?_⟩
  rw [run_eq hargs' rfl hs]
  obtain ⟨hrefused, -⟩ | ⟨-, -, hdrawing⟩ := compare_drawing hdot hminterms hverbose ho
  · rcases status_ofFormulas w.room {} f g (Table.ofFormulas f g) with h | h <;>
      exact absurd (h.symm.trans (hstatus.symm.trans hrefused)) (by decide)
  · have hdeep : w.room.allows .graph f.tree = false := by
      have hneed : w.room.need .graph f.tree = 1501 := by
        rw [htree]
        exact depth_negations 1500
      rw [Room.allows, hneed]
      decide
    rw [hdrawing, drawing_eq w text rfl (by decide), drawTree_eq w _ hf, hdeep]
    rfl

end Command

end TruthTable
