import TruthTable.Proofs.Lexing
import TruthTable.Proofs.NaturalOrder
import TruthTable.Proofs.Yard
import TruthTable.Proofs.Grammar.Notation
import TruthTable.Proofs.Grammar.Reordering

/-!
# Proofs/Composition — texts in parentheses, put together

Parentheses shut a text off from what is around it: no name runs on across them, no connective is
filled in at their inner sides, and the yard works above the barrier as it works from the start.  So
what a text compiles to can be told from its parts, whatever the texts that are put together.

* `Yard.step_above`, `Yard.run_above` — the yard above a barrier.
* `insertAnds_append` — the connectives filled in between two streams.
* `compile_composite` — a text in parentheses, its negations, and two of them under a connective.
-/

namespace TruthTable

/-! ## The yard above a barrier -/

namespace Postfix.Yard

/-- The state **above a barrier**, with something out and waiting below it. -/
def above (y : Yard) (out : List Token) (ps : List Pending) : Yard :=
  ⟨y.output ++ out, y.pending ++ .barrier :: ps⟩

variable {y y' : Yard} {ts seq : List Token}

/-- Nothing below the barrier is let out. -/
theorem release_above (p : Operator → Bool) (out : List Token) (ps : List Pending) :
    ∀ (out' : List Token) (ps' : List Pending),
      release p (out' ++ out) (ps' ++ .barrier :: ps) = (release p out' ps').above out ps
  | _, [] | _, .barrier :: _ => rfl
  | out', .op o :: ps' => by
    rw [List.cons_append, release, release]
    split
    · exact release_above p out ps (.plain o :: out') ps'
    · rfl

/-- **One token** does above a barrier what it does from the start. -/
theorem step_above (out : List Token) (ps : List Pending) : ∀ {t : Token},
    y.step t = .ok y' → (y.above out ps).step t = .ok (y'.above out ps)
  | .var _, h | .const _, h | .mark .prime, h | .mark .lparen, h => by
    obtain rfl := Except.ok.inj h
    rfl
  | .op o _, h => by
    obtain rfl := Except.ok.inj h
    rw [step, above, release_above]
    rfl
  | .mark .rparen, h => by
    obtain ⟨out', hrel | ⟨qs, hrel⟩⟩ := release_all y.output y.pending
    · rw [step, hrel] at h
      cases h
    · rw [step, hrel] at h
      obtain rfl := Except.ok.inj h
      rw [step, above, release_above, hrel]
      rfl

/-- **A run** above a barrier is a run from the start. -/
theorem run_above (out : List Token) (ps : List Pending) : ∀ {ts : List Token} {y y' : Yard},
    ts.foldlM step y = .ok y' → ts.foldlM step (y.above out ps) = .ok (y'.above out ps)
  | [], _, _, h => by
    obtain rfl := Except.ok.inj h
    rfl
  | t :: ts, y, y', h => by
    rw [List.foldlM_cons, bind_eq_ok_iff] at h
    obtain ⟨z, hstep, hrun⟩ := h
    rw [List.foldlM_cons, step_above out ps hstep]
    exact run_above out ps hrun

/-- The closing parenthesis is the end of what stands above its barrier. -/
theorem step_rparen_above (out : List Token) (ps : List Pending) (h : y.finish = .ok seq) :
    (y.above out ps).step (.mark .rparen) = .ok ⟨seq.reverse ++ out, ps⟩ := by
  obtain ⟨out', hrel | ⟨qs, hrel⟩⟩ := release_all y.output y.pending
  · rw [finish, hrel] at h
    obtain rfl := Except.ok.inj h
    rw [step, above, release_above, hrel, List.reverse_reverse]
    rfl
  · rw [finish, hrel] at h
    cases h

/-- **A stream in parentheses is read as by itself**, in the middle of any other. -/
theorem reads_parens (L : Level) (h : ofInfix ts = .ok seq) :
    Reads L (parens true ts) seq := by
  obtain ⟨y, hrun, hend⟩ := bind_eq_ok_iff.1 h
  -- Nothing that waits below the barrier matters, so the run is one of its own at any level.
  refine .of_run fun out ps => ?_
  have hopen : step ⟨out, ps⟩ (.mark .lparen) = .ok (above ⟨[], []⟩ out ps) := rfl
  have hinner := run_above out ps hrun
  have hclose := step_rparen_above out ps hend
  simp only [parens, if_true, List.foldlM_cons, List.foldlM_append, List.foldlM_nil, hopen, hinner,
    hclose, bind, Except.bind, pure, Except.pure]

end Postfix.Yard

/-! ## Streams side by side -/

/-- **What is filled in between two streams**, by the last token of the one and the first of the
other. -/
def gap (t u : Option Token) : List Token :=
  if t.any fun t => u.any t.junction then [.plain (.conn .and)] else []

/-- **Streams side by side** keep what is filled in within them. -/
theorem insertAnds_append : ∀ ts us : List Token,
    insertAnds (ts ++ us) = insertAnds ts ++ gap ts.getLast? us.head? ++ insertAnds us
  | [], us => by simp [gap]
  | [t], [] => by simp [gap]
  | [t], u :: us => by
    rw [List.singleton_append, insertAnds]
    cases hjunction : t.junction u <;> simp [gap, hjunction]
  | t :: u :: ts, us => by
    have ih := insertAnds_append (u :: ts) us
    rw [List.cons_append] at ih
    rw [List.cons_append, List.cons_append, insertAnds, insertAnds, ih, List.getLast?_cons_cons]
    split <;> simp

variable {t : Token} (ts us : List Token)

theorem insertAnds_cons_of_endsValue (h : t.endsValue = false) :
    insertAnds (t :: ts) = t :: insertAnds ts := by
  have hgap : gap [t].getLast? ts.head? = [] := by
    cases ts.head? <;> simp [gap, Token.junction, h]
  rw [← List.singleton_append, insertAnds_append, hgap]
  simp

theorem insertAnds_append_of_startsValue (h : t.startsValue = false) :
    insertAnds (ts ++ t :: us) = insertAnds ts ++ insertAnds (t :: us) := by
  have hgap : gap ts.getLast? (t :: us).head? = [] := by
    cases ts.getLast? <;> simp [gap, Token.junction, h]
  rw [insertAnds_append, hgap, List.append_nil]

/-- **No connective is filled in at the inner sides of parentheses.** -/
theorem insertAnds_parens : insertAnds (parens true ts) = parens true (insertAnds ts) := by
  simp only [parens, if_true]
  rw [insertAnds_cons_of_endsValue _ rfl, insertAnds_append_of_startsValue _ _ rfl,
    insertAnds_singleton]

/-- Two streams in parentheses, with nothing between them, are joined by `and`. -/
theorem insertAnds_parens_append :
    insertAnds (parens true ts ++ parens true us) =
      insertAnds (parens true ts) ++
        .plain (.conn .and) :: insertAnds (parens true us) := by
  have hlast : (parens true ts).getLast? = some (.mark .rparen) := by
    rw [parens, if_pos rfl, ← List.cons_append, List.getLast?_append]
    rfl
  have hfirst : (parens true us).head? = some (.mark .lparen) := rfl
  rw [insertAnds_append, hlast, hfirst, List.append_assoc]
  rfl

/-! ## Texts put together -/

open Postfix Postfix.Yard

/-- The **spellings of a connective**; between parentheses an `and` may be left unwritten. -/
def Connective.spellings : Connective → List String
  | and => ["*", ".", "·", ""]
  | xor => ["^"]
  | or => ["+", "|"]

/-- A spelling is left out or a single character. -/
theorem Connective.eq_of_mem_spellings {c : Connective} {sign : String} (h : sign ∈ c.spellings) :
    (sign = "" ∧ c = .and) ∨ ∃ s, sign.toList = [s] ∧ isNameChar s = false ∧
      Token.ofChar? (straighten s) = some (.plain (.conn c)) := by
  cases c with
  | and =>
    simp only [spellings, List.mem_cons, List.not_mem_nil, or_false] at h
    rcases h with rfl | rfl | rfl | rfl
    · exact .inr ⟨_, rfl, rfl, rfl⟩
    · exact .inr ⟨_, rfl, rfl, rfl⟩
    · exact .inr ⟨_, rfl, rfl, rfl⟩
    · exact .inl ⟨rfl, rfl⟩
  | xor =>
    obtain rfl := List.mem_singleton.1 h
    exact .inr ⟨_, rfl, rfl, rfl⟩
  | or =>
    simp only [spellings, List.mem_cons, List.not_mem_nil, or_false] at h
    rcases h with rfl | rfl
    · exact .inr ⟨_, rfl, rfl, rfl⟩
    · exact .inr ⟨_, rfl, rfl, rfl⟩

namespace Formula

/-- **The text compiles to** the sequence, the tree and the names. -/
def CompilesTo (text : String) (sequence : List Token) (tree : Expr) (names : List String) : Prop :=
  ∃ f, compile text = .ok f ∧ f.sequence = sequence ∧ f.tree = tree ∧ f.names = names

variable {text text₁ text₂ : String} {f g : Formula}

/-- A text compiles to what the yard reads of its tokens. -/
theorem compilesTo_of_reads {L : Level} {us seq : List Token} {e : Expr}
    (hlexes : Lexes text.toList us) (hreads : Postfix.Yard.Reads L (insertAnds us) seq)
    (htree : Postfix.toExpr seq = .ok e) (hlimit : ∀ n ∈ e.occurrences, VarName.WithinLimit n) :
    CompilesTo text seq e (VarName.sort e.occurrences) := by
  let f : Formula :=
    { text
      tokens := insertAnds us
      sequence := seq
      names := VarName.sort e.occurrences
      tree := e }
  have htokens : tokenize text = .ok f.tokens := tokenize_eq_ok_iff.2 ⟨us, hlexes, rfl⟩
  have hf : CompiledFrom text f := ⟨rfl, htokens, hreads.ofInfix, htree, hlimit, rfl⟩
  exact ⟨f, compile_eq_ok_iff.2 hf, rfl, rfl, rfl⟩

/-- **A text in parentheses is read by itself**, at any level. -/
theorem CompiledFrom.exists_reads (h : CompiledFrom text f) :
    ∃ us, Lexes ('(' :: (text.toList ++ [')'])) (parens true us) ∧
      ∀ L, Reads L (insertAnds (parens true us)) f.sequence := by
  obtain ⟨us, hus, htokens⟩ := tokenize_eq_ok_iff.1 h.tokens_eq
  refine ⟨us, hus.group, fun L => ?_⟩
  rw [insertAnds_parens, htokens]
  exact reads_parens L h.sequence_eq

/-- **A text in parentheses** compiles to what the text compiles to. -/
theorem CompiledFrom.compilesTo_parens (h : CompiledFrom text f) :
    CompilesTo ("(" ++ text ++ ")") f.sequence f.tree f.names := by
  obtain ⟨us, hlexes, hreads⟩ := h.exists_reads
  have hlexes : Lexes ("(" ++ text ++ ")").toList (parens true us) := by simpa using hlexes
  rw [h.names_eq]
  exact compilesTo_of_reads hlexes (hreads .prim) h.tree_eq h.withinLimit

theorem CompiledFrom.toExpr_not (h : CompiledFrom text f) :
    toExpr (f.sequence ++ [.plain .not]) = .ok (.not f.tree) := by
  rw [toExpr_eq_ok_iff, List.map_append, toExpr_eq_ok_iff.1 h.tree_eq]
  rfl

/-- **Negation in front of a text in parentheses.** -/
theorem CompiledFrom.compilesTo_not (h : CompiledFrom text f) {s : String} {c : Char}
    (hs : s.toList = c :: '(' :: (text.toList ++ [')']))
    (hc : Token.ofChar? (straighten c) = some (.op .not true)) :
    CompilesTo s (f.sequence ++ [.plain .not]) (.not f.tree) f.names := by
  obtain ⟨us, hlexes, hreads⟩ := h.exists_reads
  have hlexes : Lexes s.toList (.op .not true :: parens true us) := hs ▸ .sign hc hlexes
  have hreads := (hreads .un).not
  rw [← insertAnds_cons_of_endsValue _ rfl] at hreads
  rw [h.names_eq]
  exact compilesTo_of_reads hlexes hreads h.toExpr_not h.withinLimit

/-- **An apostrophe behind a text in parentheses.** -/
theorem CompiledFrom.compilesTo_prime (h : CompiledFrom text f) :
    CompilesTo ("(" ++ text ++ ")'") (f.sequence ++ [.plain .not]) (.not f.tree) f.names := by
  obtain ⟨us, hlexes, hreads⟩ := h.exists_reads
  have hlexes : Lexes ("(" ++ text ++ ")'").toList (parens true us ++ [.mark .prime]) := by
    simpa using hlexes.prime
  have hreads := (hreads .post).prime
  rw [← insertAnds_singleton (.mark .prime), ← insertAnds_append_of_startsValue _ _ rfl] at hreads
  rw [h.names_eq]
  exact compilesTo_of_reads hlexes hreads h.toExpr_not h.withinLimit

/-- **Between texts in parentheses, each spelling of a connective is read as it.** -/
theorem exists_lexes_spelling {c : Connective} {sign : String} (hsign : sign ∈ c.spellings)
    {cs ds : List Char} {us vs : List Token} (hus : Lexes cs (parens true us))
    (hvs : Lexes ('(' :: ds) (parens true vs)) :
    ∃ ws, Lexes (cs ++ (sign.toList ++ '(' :: ds)) ws ∧ insertAnds ws =
      insertAnds (parens true us) ++ .plain (.conn c) :: insertAnds (parens true vs) := by
  rcases Connective.eq_of_mem_spellings hsign with ⟨rfl, rfl⟩ | ⟨s, hs, hname, htoken⟩
  -- Left unwritten, the `and` is none of the tokens that are read; it is filled in.
  · have hlexes := hus.append (endsName_cons rfl ds) hvs
    exact ⟨_, hlexes, insertAnds_parens_append us vs⟩
  · have hlexes := hus.append (endsName_cons hname _) (.sign htoken hvs)
    refine ⟨_, by rwa [hs], ?_⟩
    rw [← insertAnds_cons_of_endsValue _ rfl, ← insertAnds_append_of_startsValue _ _ rfl]

/-- **Two texts in parentheses under a connective.** -/
theorem CompiledFrom.compilesTo_conn (hf : CompiledFrom text₁ f) (hg : CompiledFrom text₂ g)
    {c : Connective} {sign : String} (hsign : sign ∈ c.spellings) :
    CompilesTo ("(" ++ text₁ ++ ")" ++ sign ++ "(" ++ text₂ ++ ")")
      (f.sequence ++ g.sequence ++ [.plain (.conn c)]) (.bin c f.tree g.tree) (union [f, g]) := by
  obtain ⟨us, hus, hleft⟩ := hf.exists_reads
  obtain ⟨vs, hvs, hright⟩ := hg.exists_reads
  obtain ⟨ws, hws, htokens⟩ := exists_lexes_spelling hsign hus hvs
  have hlexes : Lexes ("(" ++ text₁ ++ ")" ++ sign ++ "(" ++ text₂ ++ ")").toList ws := by
    simpa using hws
  have hreads := (hleft (.conn c)).join (hright (.under c))
  rw [← htokens] at hreads
  have htree : toExpr (f.sequence ++ g.sequence ++ [.plain (.conn c)]) =
      .ok (.bin c f.tree g.tree) := by
    rw [toExpr_eq_ok_iff, List.map_append, List.map_append, toExpr_eq_ok_iff.1 hf.tree_eq,
      toExpr_eq_ok_iff.1 hg.tree_eq]
    rfl
  have hnames : union [f, g] = VarName.sort (Expr.bin c f.tree g.tree).occurrences :=
    VarName.sort_congr fun n => by simp [hf.mem_names_iff, hg.mem_names_iff, Expr.occurrences]
  have hlimit : ∀ n ∈ (Expr.bin c f.tree g.tree).occurrences, VarName.WithinLimit n :=
    List.forall_mem_append.2 ⟨hf.withinLimit, hg.withinLimit⟩
  rw [hnames]
  exact compilesTo_of_reads hlexes hreads htree hlimit

/-- **Texts put together compile to what their formulas make**, whatever texts they are: parentheses
change nothing, each negation of a text in parentheses is its negation, and two of them under a
connective, however it is spelled, are joined by it.  The names are those of the parts, distinct and
in natural order. -/
theorem compile_composite (hf : compile text₁ = .ok f) (hg : compile text₂ = .ok g) :
    CompilesTo ("(" ++ text₁ ++ ")") f.sequence f.tree f.names ∧
    (∀ s ∈ ["!(" ++ text₁ ++ ")", "~(" ++ text₁ ++ ")", "(" ++ text₁ ++ ")'"],
      CompilesTo s (f.sequence ++ [.plain .not]) (.not f.tree) f.names) ∧
    ∀ c : Connective, ∀ sign ∈ c.spellings,
      CompilesTo ("(" ++ text₁ ++ ")" ++ sign ++ "(" ++ text₂ ++ ")")
        (f.sequence ++ g.sequence ++ [.plain (.conn c)]) (.bin c f.tree g.tree)
        (union [f, g]) := by
  have hf := compile_eq_ok_iff.1 hf
  have hg := compile_eq_ok_iff.1 hg
  refine ⟨hf.compilesTo_parens, fun s hs => ?_, fun c sign hsign => hf.compilesTo_conn hg hsign⟩
  simp only [List.mem_cons, List.not_mem_nil, or_false] at hs
  rcases hs with rfl | rfl | rfl
  · exact hf.compilesTo_not (c := '!') (by simp) rfl
  · exact hf.compilesTo_not (c := '~') (by simp) rfl
  · exact hf.compilesTo_prime

/-- A text that is no text of the language, whose missing operand is not made up for by what is
joined to it, and one with blanks. -/
theorem compile_composite_missing_operand : ∃ f g,
    compile "A'B+" = .ok f ∧ compile " b_2 ^1 " = .ok g ∧
      CompilesTo "~(A'B+)" [.var "A", .plain .not, .var "B", .plain (.conn .or), .plain .not]
        (.not (.bin .or (.not (.var "A")) (.var "B"))) ["A", "B"] ∧
      CompilesTo "(A'B+)( b_2 ^1 )"
        [.var "A", .plain .not, .var "B", .plain (.conn .or), .var "b_2", .const true,
          .plain (.conn .xor), .plain (.conn .and)]
        (.bin .and (.bin .or (.not (.var "A")) (.var "B"))
          (.bin .xor (.var "b_2") (.const true)))
        ["A", "B", "b_2"] := by
  let f : Formula :=
    { text := "A'B+"
      tokens := [.var "A", .mark .prime, .var "B", .plain (.conn .or)]
      sequence := [.var "A", .plain .not, .var "B", .plain (.conn .or)]
      names := ["A", "B"]
      tree := .bin .or (.not (.var "A")) (.var "B") }
  let g : Formula :=
    { text := " b_2 ^1 "
      tokens := [.var "b_2", .plain (.conn .xor), .const true]
      sequence := [.var "b_2", .const true, .plain (.conn .xor)]
      names := ["b_2"]
      tree := .bin .xor (.var "b_2") (.const true) }
  have hf : compile "A'B+" = .ok f := by decide +kernel
  have hg : compile " b_2 ^1 " = .ok g := by decide +kernel
  have hunion : union [f, g] = ["A", "B", "b_2"] := by decide +kernel
  obtain ⟨-, hnot, hjoin⟩ := compile_composite hf hg
  have hboth := hjoin .and "" (by decide)
  rw [hunion] at hboth
  exact ⟨f, g, hf, hg, hnot "~(A'B+)" (by decide), hboth⟩

end Formula

end TruthTable
