import Mathlib.Data.List.Chain
import TruthTable.Proofs.Layout
import TruthTable.Proofs.Places
import TruthTable.Proofs.RoundTrip
import TruthTable.Proofs.Grammar.Parentheses

/-!
# Proofs/Parentheses — the printed text has as few parentheses as a text of its tree can have

The parentheses of a text are those of its tokens: no name holds one and none is filled in.  So what
the grammar says of streams holds of texts: no derivable text of a tree opens fewer parentheses than
the printed one, and to take out a matched pair leaves a derivable text of another tree.  Where the
pair stood no name runs on, since a printed text has nothing but connectives, apostrophes and other
parentheses around it.

* `Lexes.count_eq` — characters and tokens are counted alike.
* `Lexes.exists_of_append`, `Lexes.append_of_getLast?` — texts cut in two and put together.
* `Lexes.unwrap` — a text with a matched pair taken out.
* `Formula.toText_fewest_parens` — no text of a tree has fewer parentheses than the printed one.
-/

namespace TruthTable

variable {cs ds : List Char} {ts us vs : List Token} {t : Token} {c : Char}

/-! ## Counting -/

/-- **A character with a token to itself** stands in a text as often as its token. -/
theorem Lexes.count_eq (hsigns : t.signs = [c]) (hname : isNameChar c = false) (h : Lexes cs ts) :
    cs.count c = ts.count t := by
  have hread : Token.ofChar? (straighten c) = some t :=
    Token.mem_signs_iff.1 (hsigns ▸ List.mem_singleton_self c)
  induction h with
  | nil => rfl
  | @blank d cs ts hd _ ih =>
    have hne : d ≠ c := by
      rintro rfl
      nomatch (ofChar?_of_isBlank hd).symm.trans hread
    rw [List.count_cons_of_ne hne, ih]
  | @sign d u cs ts hd _ ih =>
    have hiff : d = c ↔ u = t := by
      constructor
      · rintro rfl
        exact Option.some.inj (hd.symm.trans hread)
      · rintro rfl
        exact List.mem_singleton.1 (hsigns ▸ Token.mem_signs_iff.2 hd)
    by_cases hdc : d = c
    · obtain rfl := hdc
      obtain rfl := hiff.1 rfl
      rw [List.count_cons_self, List.count_cons_self, ih]
    · rw [List.count_cons_of_ne hdc, List.count_cons_of_ne (hdc ∘ hiff.2), ih]
  | @name d cs ts hd _ ih =>
    have hvar : ∀ n, Token.var n ≠ t := by
      rintro n rfl
      nomatch hsigns
    have hword : ∀ a ∈ d :: cs.takeWhile isNameChar, isNameChar a = true :=
      List.forall_mem_cons.2 ⟨isNameChar_of_isLetter hd, fun _ => List.mem_takeWhile_imp⟩
    have hnone : (d :: cs.takeWhile isNameChar).count c = 0 :=
      List.count_eq_zero.2 fun hmem => nomatch hname.symm.trans (hword c hmem)
    calc (d :: cs).count c
        = (d :: cs.takeWhile isNameChar ++ cs.dropWhile isNameChar).count c := by
          rw [List.cons_append, List.takeWhile_append_dropWhile]
      _ = ts.count t := by rw [List.count_append, hnone, ih, Nat.zero_add]
      _ = _ := (List.count_cons_of_ne (hvar _)).symm

theorem count_insertAnds (ht : t ≠ .plain (.conn .and)) : ∀ ts : List Token,
    (insertAnds ts).count t = ts.count t
  | [] => by rw [insertAnds_nil]
  | [u] => by rw [insertAnds_singleton]
  | u :: v :: ts => by
    have ih := count_insertAnds ht (v :: ts)
    rw [insertAnds]
    split
    · rw [List.count_cons, List.count_cons_of_ne ht.symm, ih, List.count_cons (l := v :: ts)]
    · rw [List.count_cons, ih, List.count_cons (l := v :: ts)]

/-! ## Texts cut in two -/

/-- **A text is cut where a name ends.** -/
theorem Lexes.exists_of_append (hds : EndsName ds) : ∀ {cs : List Char} {ts : List Token},
    Lexes (cs ++ ds) ts → ∃ us vs, ts = us ++ vs ∧ Lexes cs us ∧ Lexes ds vs
  | [], ts, h => ⟨[], ts, rfl, .nil, h⟩
  | c :: cs, ts, h => by
    rw [List.cons_append] at h
    cases h with
    | blank hc h =>
      obtain ⟨us, vs, rfl, hus, hvs⟩ := exists_of_append hds h
      exact ⟨us, vs, rfl, .blank hc hus, hvs⟩
    | @sign _ t _ _ hc h =>
      obtain ⟨us, vs, rfl, hus, hvs⟩ := exists_of_append hds h
      exact ⟨t :: us, vs, rfl, .sign hc hus, hvs⟩
    | name hc h =>
      have hlength := length_dropWhile_le isNameChar cs
      rw [hds.dropWhile_append_left] at h
      obtain ⟨us, vs, rfl, hus, hvs⟩ := exists_of_append hds h
      rw [hds.takeWhile_append_left]
      exact ⟨_ :: us, vs, rfl, .name hc hus, hvs⟩
termination_by cs => cs.length

/-- A text is cut at a sign. -/
theorem Lexes.exists_of_append_sign (hc : Token.ofChar? (straighten c) = some t)
    (hname : isNameChar c = false) (h : Lexes (cs ++ c :: ds) ts) :
    ∃ us vs, ts = us ++ t :: vs ∧ Lexes cs us ∧ Lexes ds vs := by
  obtain ⟨us, ws, rfl, hus, hws⟩ := Lexes.exists_of_append (endsName_cons hname ds) h
  obtain ⟨vs, hvs, rfl⟩ := (lexes_sign_iff hc).1 hws
  exact ⟨us, vs, rfl, hus, hvs⟩

/-- **The first tokens of a text** are read from its first characters. -/
theorem Lexes.exists_prefix {read : List Token} (h : Lexes cs ts) (hread : read <+: ts) :
    ∃ front, front <+: cs ∧ Lexes front read := by
  obtain ⟨l, rfl, rfl⟩ := lexes_iff_layout.1 h
  obtain ⟨rest, hrest⟩ := hread
  obtain ⟨ps, qs, hpieces, rfl, -⟩ := List.append_eq_map_iff.1 hrest
  let m : Layout := { l with pieces := ps, apart := (hpieces ▸ l.apart).left_of_append }
  have hchars : m.chars ++ Layout.written qs = l.chars := by
    simp [m, Layout.chars, Layout.written, hpieces]
  exact ⟨m.chars, ⟨_, hchars⟩, m.lexes⟩

/-- **Texts side by side** are read one after the other where the first does not end in a name. -/
theorem Lexes.append_of_getLast? (h : Lexes cs ts) (hlast : ∀ t ∈ ts.getLast?, t.name? = none)
    (h' : Lexes ds us) : Lexes (cs ++ ds) (ts ++ us) := by
  induction h with
  | nil => exact h'
  | blank hc _ ih => exact .blank hc (ih hlast)
  | sign hc _ ih => exact .sign hc (ih fun t ht => hlast t (List.mem_getLast?_cons ht))
  | @name c cs ts hc hrest ih =>
    have hends : EndsName (cs.dropWhile isNameChar ++ ds) := by
      have hdrop := endsName_dropWhile cs
      cases hcs : cs.dropWhile isNameChar with
      | nil =>
        obtain rfl := lexes_nil_iff.1 (hcs ▸ hrest)
        nomatch hlast _ rfl
      | cons d rest => exact endsName_cons (hdrop d (hcs ▸ rfl)) _
    have hword : ∀ d ∈ cs.takeWhile isNameChar, isNameChar d = true :=
      fun _ => List.mem_takeWhile_imp
    have hsplit : cs ++ ds = cs.takeWhile isNameChar ++ (cs.dropWhile isNameChar ++ ds) := by
      rw [← List.append_assoc, List.takeWhile_append_dropWhile]
    have hboth := ih fun t ht => hlast t (List.mem_getLast?_cons ht)
    rw [← hends.dropWhile_append hword, ← hsplit] at hboth
    rw [← hends.takeWhile_append hword, ← hsplit]
    exact .name hc hboth

/-- A name ends where a value is complete. -/
theorem Lexes.endsName_of_alternates (h : Lexes cs ts) (halt : Alternates true ts) :
    EndsName cs := by
  intro c hc
  by_contra hname
  have hname : isNameChar c = true := Bool.not_eq_false _ ▸ hname
  cases h with
  | nil => nomatch hc
  | blank hblank _ =>
    obtain rfl := Option.some.inj hc
    nomatch hblank.symm.trans (isBlank_of_isNameChar hname)
  | @sign c t cs ts hsign _ =>
    obtain rfl := Option.some.inj hc
    have hoperand := (Token.ofChar?_of_mem_signs c (Token.mem_signs_iff.2 hsign)).2
    rw [hname] at hoperand
    cases t with
    | var | const => nomatch halt.1
    | mark | op => nomatch hoperand
  | name => nomatch halt.1

/-! ## A pair taken out -/

/-- **A matched pair of parentheses is taken out** of the characters: what stands inside closes no
parenthesis that it does not open, and leaves none open. -/
inductive Unwraps : List Char → List Char → Prop
  | pair (front inside back : List Char)
    (hclosed : ∀ read, read <+: inside → read.count ')' ≤ read.count '(')
    (hcount : inside.count '(' = inside.count ')') :
    Unwraps (front ++ '(' :: (inside ++ ')' :: back)) (front ++ (inside ++ back))

theorem Unwraps.count_eq (h : Unwraps cs ds) : cs.count '(' = ds.count '(' + 1 := by
  cases h with
  | pair front inside back _ _ =>
    have hne : ')' ≠ '(' := by decide
    simp only [List.count_append, List.count_cons_self, List.count_cons_of_ne hne]
    omega

/-- **Without the pair the text is read as a stream again**, with the same variables. -/
theorem Lexes.unwrap (h : Lexes cs ts) (hts : Derivable (.conn .or) ts) (hpair : Unwraps cs ds) :
    ∃ us, Lexes ds us ∧ Derivable (.conn .or) us ∧ Postfix.names us = Postfix.names ts := by
  cases hpair with
  | pair front inside back hclosed hcount =>
    obtain ⟨us, ws, rfl, hfront, hrest⟩ := h.exists_of_append_sign (t := .mark .lparen) rfl rfl
    obtain ⟨ms, vs, rfl, hinside, hback⟩ := hrest.exists_of_append_sign (t := .mark .rparen) rfl rfl
    have hlparen {cs : List Char} {ts : List Token} (h : Lexes cs ts) :
        cs.count '(' = ts.count (.mark .lparen) := h.count_eq rfl rfl
    have hrparen {cs : List Char} {ts : List Token} (h : Lexes cs ts) :
        cs.count ')' = ts.count (.mark .rparen) := h.count_eq rfl rfl
    have hms : Balanced 0 ms := by
      refine balanced_iff_count.2 ⟨fun read hread => ?_, ?_⟩
      · obtain ⟨first, hfirst, hlexes⟩ := hinside.exists_prefix hread
        rw [Nat.zero_add, ← hlparen hlexes, ← hrparen hlexes]
        exact hclosed first hfirst
      · rw [Nat.zero_add, ← hlparen hinside, ← hrparen hinside, hcount]
    have hwell := derivable_iff_wellFormed.1 hts
    obtain ⟨hopen, hinner⟩ := hwell.alternates.of_append
    obtain ⟨-, hbehind⟩ := hinner.of_append
    have hlast : ∀ t ∈ us.getLast?, t.name? = none := by
      intro t ht
      rw [Option.mem_def.1 ht] at hopen
      cases t <;> first | rfl | nomatch hopen
    have hmiddle : Lexes (inside ++ back) (ms ++ vs) :=
      hinside.append (hback.endsName_of_alternates hbehind) hback
    refine ⟨us ++ (ms ++ vs), hfront.append_of_getLast? hlast hmiddle,
      derivable_iff_wellFormed.2 (hwell.unwrap hms), ?_⟩
    have hmark (m : Mark) (ws : List Token) :
        Postfix.names (.mark m :: ws) = Postfix.names ws := rfl
    simp only [Postfix.names_append, hmark]

/-! ## The printed text -/

namespace Formula

/-- **A derivable text of a tree** has the parentheses that the tree needs. -/
theorem opened_le_of_spells {text : String} {tokens : List Token} {e : Expr}
    (htext : tokenize text = .ok tokens) (hts : Derivable (.conn .or) tokens) (h : Spells text e) :
    (Level.conn .or).opened e ≤ text.toList.count '(' := by
  obtain ⟨d, hd⟩ := hts
  obtain ⟨us, hlexes, rfl⟩ := tokenize_eq_ok_iff.1 htext
  obtain rfl := h.unique ⟨_, _, htext, hd.ofInfix, Postfix.toExpr_postorder d⟩
  rw [hlexes.count_eq (t := .mark .lparen) rfl rfl,
    ← count_insertAnds (t := .mark .lparen) (fun h => nomatch h)]
  exact hd.opened_le

/-- **The printed text has no others.** -/
theorem count_toText {e : Expr} (h : ∀ n ∈ e.occurrences, IsIdentifier n) :
    e.toText.toList.count '(' = (Level.conn .or).opened e.leftNest := by
  have hnest : ∀ n ∈ e.leftNest.occurrences, IsIdentifier n := by
    rwa [Expr.occurrences_leftNest]
  rw [Level.opened_or, ← e.toText_leftNest,
    (lexes_toText hnest).count_eq (t := .mark .lparen) rfl rfl]

/-- **A printed text without one of its pairs** spells another tree, of the same variables. -/
theorem exists_spells_of_unwraps {e : Expr} (hname : ∀ n ∈ e.occurrences, IsIdentifier n)
    {text : String} (hpair : Unwraps e.toText.toList text.toList) :
    ∃ d, Spells text d ∧ d ≠ e.leftNest ∧ d.occurrences = e.leftNest.occurrences := by
  have hstream := e.derives_stream .prime
  obtain ⟨us, hlexes, ⟨d, hd⟩, hnames⟩ := (lexes_toText hname).unwrap ⟨_, hstream⟩ hpair
  refine ⟨d, spells_of_derives hlexes hd, ?_, ?_⟩
  · rintro rfl
    have hfewer : e.toText.toList.count '(' = us.count (.mark .lparen) + 1 := by
      rw [hpair.count_eq, hlexes.count_eq (t := .mark .lparen) rfl rfl]
    have hcount := hd.opened_le
    rw [← count_toText hname, hfewer] at hcount
    exact Nat.not_succ_le_self _ hcount
  · rw [← hd.names_eq, hnames, hstream.names_eq]

variable {text text' : String} {d e : Expr}

/-- **Texts with the same variables** meet the digit limit together. -/
theorem Spells.exists_compile (h : Spells text d) (h' : Spells text' e)
    (hnames : d.occurrences = e.occurrences) {g : Formula} (hg : compile text' = .ok g) :
    ∃ f, compile text = .ok f ∧ f.tree = d := by
  have hg := compile_eq_ok_iff.1 hg
  obtain rfl := hg.spells.unique h'
  obtain ⟨f, hf, hd⟩ := h.exists_compiledFrom (hnames ▸ hg.withinLimit)
  exact ⟨f, compile_eq_ok_iff.2 hf, hd⟩

theorem Spells.compile_eq_error (h : Spells text d) (h' : Spells text' e)
    (hnames : d.occurrences = e.occurrences) {x : Failure} (hx : compile text' = .error x) :
    compile text = .error x := by
  rcases compile_eq_error_iff.1 hx with ⟨y, hy, -⟩ | ⟨b, y, hb, hy, rfl⟩
  · exact absurd hy h'.not_refused
  · obtain rfl := hb.unique h'
    exact compile_eq_error_iff.2 (.inr ⟨d, y, h, hnames ▸ hy, rfl⟩)

/-- **No text of a tree has fewer parentheses than the printed one**, if the variables of the tree
are identifiers: not one of the derivable texts that spell what the printed text spells.  So each
printed pair is needed.  Without it the text spells another tree, and it compiles to that tree where
the printed text compiles; where this is stopped by the digit limit, so is the text without the
pair. -/
theorem toText_fewest_parens {e : Expr} (hname : ∀ n ∈ e.occurrences, IsIdentifier n) :
    (∀ text tokens d, tokenize text = .ok tokens → Derivable (.conn .or) tokens →
      Spells text d → Spells e.toText d →
      e.toText.toList.count '(' ≤ text.toList.count '(') ∧
    ∀ text : String, Unwraps e.toText.toList text.toList →
      (∃ d, Spells text d ∧ ¬ Spells e.toText d) ∧
      (∀ g, compile e.toText = .ok g → ∃ f, compile text = .ok f ∧ f.tree ≠ g.tree) ∧
      ∀ x, compile e.toText = .error x → compile text = .error x := by
  have hprinted := spells_toText hname
  refine ⟨fun text tokens d htext hts hd hd' => ?_, fun text hpair => ?_⟩
  · obtain rfl := hd'.unique hprinted
    rw [count_toText hname]
    exact opened_le_of_spells htext hts hd
  · obtain ⟨d, hd, hne, hnames⟩ := exists_spells_of_unwraps hname hpair
    refine ⟨⟨d, hd, fun h => hne (h.unique hprinted)⟩, fun g hg => ?_, fun x hx =>
      hd.compile_eq_error hprinted hnames hx⟩
    obtain ⟨f, hf, rfl⟩ := hd.exists_compile hprinted hnames hg
    have htree : g.tree = e.leftNest := (compile_eq_ok_iff.1 hg).spells.unique hprinted
    exact ⟨f, hf, htree ▸ hne⟩

/-- A text with a pair that the printed one does without, and the printed text with the pair under
the apostrophe taken out. -/
theorem toText_fewest_parens_negation :
    let e : Expr := .bin .and
      (.bin .or (.var "A") (.not (.bin .xor (.var "B") (.const true)))) (.var "c")
    e.toText = "(A+(B^1)')*c" ∧ Spells "(A|~(B^1))(c)" e ∧
      e.toText.toList.count '(' ≤ "(A|~(B^1))(c)".toList.count '(' ∧
      ∃ f g, compile e.toText = .ok g ∧ compile "(A+B^1')*c" = .ok f ∧ f.tree ≠ g.tree := by
  intro e
  let ts : List Token :=
    [.mark .lparen, .var "A", .plain (.conn .or), .op .not true, .mark .lparen, .var "B",
      .plain (.conn .xor), .const true, .mark .rparen, .mark .rparen, .plain (.conn .and),
      .mark .lparen, .var "c", .mark .rparen]
  have hname : ∀ n ∈ e.occurrences, IsIdentifier n := by decide +kernel
  have hprinted : e.toText = "(A+(B^1)')*c" := by decide +kernel
  have htext : tokenize "(A|~(B^1))(c)" = .ok ts := by decide +kernel
  have hts : Derivable (.conn .or) ts :=
    derivable_iff_wellFormed.2 ⟨by decide, by decide, rfl⟩
  have hspells : Spells "(A|~(B^1))(c)" e :=
    ⟨ts, e.postorder, htext, by decide +kernel, Postfix.toExpr_postorder e⟩
  have hpair : Unwraps e.toText.toList "(A+B^1')*c".toList := by
    rw [hprinted]
    exact .pair "(A+".toList "B^1".toList "')*c".toList
      (fun _ hread => Nat.le_trans (hread.sublist.count_le ')') (Nat.zero_le _)) rfl
  obtain ⟨hfewest, hneeded⟩ := toText_fewest_parens hname
  obtain ⟨-, hother, -⟩ := hneeded _ hpair
  obtain ⟨g, hg, -⟩ := (spells_toText hname).exists_compiledFrom (by decide +kernel)
  obtain ⟨f, hf, hne⟩ := hother g (compile_eq_ok_iff.2 hg)
  exact ⟨hprinted, hspells, hfewest _ ts e htext hts hspells (spells_toText hname),
    f, g, compile_eq_ok_iff.2 hg, hf, hne⟩

end Formula

end TruthTable
