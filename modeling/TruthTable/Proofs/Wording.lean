import TruthTable.Markup
import TruthTable.Proofs.Unprimed

/-!
# Proofs/Wording — which trees have the same markup in words

In words a compound operand is in parentheses, so the spaces outside of parentheses cut a markup
into the operator and its operands, and no two trees share their markup as long as they differ in
more than words.  The words of the constants are names as well, however: a variable of such a name
cannot be told from the constant.

* `Words.pieces` — a text, cut at the spaces outside of parentheses.
* `Expr.worded` — the tree with variables in the place of constants.
* `Expr.toPython_eq_iff` — the trees that share their markup.
* `Formula.render_eq_iff_worded` — the same of accepted texts, and when it means the same formula.
-/

namespace TruthTable

/-! ## Variables are identifiers -/

/-- The variables that are read from a text are identifiers. -/
theorem Lexes.isIdentifier {cs : List Char} {ts : List Token} (h : Lexes cs ts) {n : String}
    (hn : .var n ∈ ts) : IsIdentifier n := by
  induction h with
  | nil => nomatch hn
  | blank _ _ ih => exact ih hn
  | @sign c t cs ts hc _ ih =>
    rcases List.mem_cons.1 hn with rfl | hn
    · unfold Token.ofChar? at hc
      split at hc <;> cases hc
    · exact ih hn
  | @name c cs ts hc _ ih =>
    rcases List.mem_cons.1 hn with h | hn
    · obtain rfl := Token.var.inj h
      refine ⟨c, cs.takeWhile isNameChar, String.toList_ofList, hc, fun d hd => ?_⟩
      exact List.mem_takeWhile_imp hd
    · exact ih hn

/-- **The variables of a text are identifiers.** -/
theorem Formula.Spells.isIdentifier {text : String} {e : Expr} (h : Spells text e) {n : String}
    (hn : n ∈ e.occurrences) : IsIdentifier n := by
  obtain ⟨tokens, sequence, htokens, hsequence, htree⟩ := h
  obtain ⟨ts, hlexes, rfl⟩ := tokenize_eq_ok_iff.1 htokens
  rw [Postfix.mem_occurrences_iff htree, (Postfix.perm_of_ofInfix hsequence).mem_iff] at hn
  obtain ⟨u, hu, hname⟩ := List.mem_filterMap.1 hn
  obtain rfl : u = .var n := by
    rcases u with _ | _ | (_ | _ | _) | _ <;> simp_all [Token.shunted?]
  exact hlexes.isIdentifier (mem_of_mem_insertAnds (by simp) hu)

/-! ## Pieces of a text -/

namespace Words

/-- How many parentheses are open behind a character. -/
def depthAfter (depth : Nat) (c : Char) : Nat :=
  if c = '(' then depth + 1 else if c = ')' then depth - 1 else depth

/-- **A text cut at the spaces** that stand outside of all parentheses. -/
def pieces : (depth : Nat) → List Char → List (List Char)
  | _, [] => [[]]
  | depth, c :: cs =>
    if c = ' ' ∧ depth = 0 then [] :: pieces 0 cs
    else (pieces (depthAfter depth c) cs).modifyHead (c :: ·)

/-- **A text that is not cut**, and that closes the parentheses it opens. -/
def Solid (depth : Nat) (s : List Char) : Prop :=
  ∀ cs, pieces depth (s ++ cs) = (pieces depth cs).modifyHead (s ++ ·)

variable {depth : Nat} {s t : List Char}

theorem solid_nil (depth : Nat) : Solid depth [] := fun cs => by
  rw [List.nil_append]
  cases pieces depth cs <;> rfl

theorem Solid.append (hs : Solid depth s) (ht : Solid depth t) :
    Solid depth (s ++ t) := fun cs => by
  rw [List.append_assoc, hs, ht, List.modifyHead_modifyHead]
  simp only [Function.comp_def, List.append_assoc]

/-- A character that is no parenthesis is not cut away, a space at least not inside of
parentheses. -/
theorem solid_singleton {c : Char} (hc : depthAfter depth c = depth)
    (hspace : c = ' ' → depth ≠ 0) : Solid depth [c] := fun cs => by
  have hstay : ¬ (c = ' ' ∧ depth = 0) := fun h => hspace h.1 h.2
  rw [List.cons_append, pieces, if_neg hstay, hc]
  rfl

/-- A text without parentheses is cut at spaces only, and not at all inside of parentheses. -/
theorem solid_of_forall : ∀ {s : List Char},
    (∀ c ∈ s, depthAfter depth c = depth ∧ (c = ' ' → depth ≠ 0)) → Solid depth s
  | [], _ => solid_nil depth
  | _ :: _, h =>
    have ⟨⟨hc, hspace⟩, hs⟩ := List.forall_mem_cons.1 h
    (solid_singleton hc hspace).append (solid_of_forall hs)

/-- **Parentheses keep a text together.** -/
theorem Solid.parens (h : Solid (depth + 1) s) : Solid depth ('(' :: (s ++ [')'])) := fun cs => by
  have hopen : pieces depth ('(' :: (s ++ ')' :: cs)) =
      (pieces (depth + 1) (s ++ ')' :: cs)).modifyHead ('(' :: ·) := rfl
  have hclose : pieces (depth + 1) (')' :: cs) = (pieces depth cs).modifyHead (')' :: ·) := rfl
  have htext : '(' :: (s ++ [')']) ++ cs = '(' :: (s ++ ')' :: cs) := by simp
  rw [htext, hopen, h, hclose, List.modifyHead_modifyHead, List.modifyHead_modifyHead]
  simp [Function.comp_def]

/-- A text that is not cut is one piece. -/
theorem Solid.pieces_eq (h : Solid 0 s) : pieces 0 s = [s] := by
  have hnil := h []
  rw [List.append_nil] at hnil
  rw [hnil]
  simp [pieces]

/-- **The first cut** is at the space behind a text that is not cut itself. -/
theorem Solid.pieces_append (h : Solid 0 s) (cs : List Char) :
    pieces 0 (s ++ ' ' :: cs) = s :: pieces 0 cs := by
  have hspace : pieces 0 (' ' :: cs) = [] :: pieces 0 cs := rfl
  rw [h, hspace]
  simp

end Words

/-! ## Pieces of a markup -/

namespace Expr

open Words

variable {depth : Nat} {d e : Expr}

/-- **An operand in words.** -/
def inWords (e : Expr) : String := paren (!e.isLeaf) e.toPython

theorem toPython_not (e : Expr) : (not e).toPython = "not " ++ e.inWords := rfl

theorem toPython_bin (c : Connective) (l r : Expr) :
    (bin c l r).toPython = l.inWords ++ " " ++ c.word ++ " " ++ r.inWords := rfl

theorem inWords_of_isLeaf (h : e.isLeaf = true) : e.inWords = e.toPython := by
  rw [inWords, h]
  rfl

theorem toList_inWords (h : e.isLeaf = false) :
    e.inWords.toList = '(' :: (e.toPython.toList ++ [')']) := by
  simp [inWords, h, paren]

/-- The markup of a leaf is a name. -/
theorem isNameChar_of_isLeaf : ∀ {e : Expr}, e.isLeaf = true →
    (∀ n ∈ e.occurrences, IsIdentifier n) → ∀ c ∈ e.toPython.toList, isNameChar c = true
  | .var n, _, h => (h n (List.mem_singleton_self n)).forall_isNameChar
  | .const true, _, _ => List.all_eq_true.1 (by decide)
  | .const false, _, _ => List.all_eq_true.1 (by decide)

theorem solid_of_isNameChar {s : List Char} (h : ∀ c ∈ s, isNameChar c = true) : Solid depth s :=
  solid_of_forall fun c hc => by
    have hopen : c ≠ '(' := by rintro rfl; nomatch h _ hc
    have hclose : c ≠ ')' := by rintro rfl; nomatch h _ hc
    have hspace : c ≠ ' ' := by rintro rfl; nomatch h _ hc
    exact ⟨by rw [depthAfter, if_neg hopen, if_neg hclose], fun h => absurd h hspace⟩

theorem word_injective {c c' : Connective} (h : c.word = c'.word) : c = c' := by
  revert h
  cases c <;> cases c' <;> decide

/-- A word is not cut, and a space beside it only outside of parentheses. -/
theorem solid_word (c : Connective) : Solid depth c.word.toList := by
  refine solid_of_forall fun x hx => ?_
  have hword : c.word.toList.all (fun x => x ≠ '(' ∧ x ≠ ')' ∧ x ≠ ' ') = true := by
    cases c <;> decide
  obtain ⟨hopen, hclose, hspace⟩ := of_decide_eq_true (List.all_eq_true.1 hword x hx)
  exact ⟨by rw [depthAfter, if_neg hopen, if_neg hclose], fun h => absurd h hspace⟩

theorem solid_space (depth : Nat) : Solid (depth + 1) [' '] :=
  solid_singleton rfl fun _ => Nat.succ_ne_zero depth

/-- An operand is not cut anywhere. -/
theorem solid_inWords (hnames : ∀ n ∈ e.occurrences, IsIdentifier n)
    (h : Solid (depth + 1) e.toPython.toList) : Solid depth e.inWords.toList := by
  cases hleaf : e.isLeaf with
  | true =>
    rw [inWords_of_isLeaf hleaf]
    exact solid_of_isNameChar (isNameChar_of_isLeaf hleaf hnames)
  | false =>
    rw [toList_inWords hleaf]
    exact h.parens

/-- **A markup in parentheses is not cut.** -/
theorem solid_toPython : ∀ {e : Expr}, (∀ n ∈ e.occurrences, IsIdentifier n) →
    ∀ depth, Solid (depth + 1) e.toPython.toList
  | .var n, h, _ => solid_of_isNameChar (isNameChar_of_isLeaf (e := .var n) rfl h)
  | .const b, h, _ => solid_of_isNameChar (isNameChar_of_isLeaf (e := .const b) rfl h)
  | .not e, h, depth => by
    have hnot : Solid (depth + 1) "not".toList :=
      solid_of_isNameChar (List.all_eq_true.1 (by decide))
    have he := solid_inWords (e := e) h (solid_toPython (e := e) h (depth + 1))
    rw [toPython_not, String.toList_append]
    exact (hnot.append (solid_space depth)).append he
  | .bin c l r, h, depth => by
    obtain ⟨hl, hr⟩ := List.forall_mem_append.1 h
    have hl := solid_inWords hl (solid_toPython hl (depth + 1))
    have hr := solid_inWords hr (solid_toPython hr (depth + 1))
    have hspace := solid_space depth
    simp only [toPython_bin, String.toList_append]
    exact (((hl.append hspace).append (solid_word c)).append hspace).append hr

/-- **The parts of a markup**: a name, or an operator with its operands. -/
def parts : Expr → List String
  | var n => [n]
  | const b => [(const b).toPython]
  | not e => ["not", e.inWords]
  | bin c l r => [l.inWords, c.word, r.inWords]

/-- **A markup is cut into its parts.** -/
theorem pieces_toPython : ∀ {e : Expr}, (∀ n ∈ e.occurrences, IsIdentifier n) →
    pieces 0 e.toPython.toList = e.parts.map String.toList
  | .var n, h => (solid_of_isNameChar (isNameChar_of_isLeaf (e := .var n) rfl h)).pieces_eq
  | .const b, h => (solid_of_isNameChar (isNameChar_of_isLeaf (e := .const b) rfl h)).pieces_eq
  | .not e, h => by
    have hnot : Solid 0 "not".toList := solid_of_isNameChar (List.all_eq_true.1 (by decide))
    have he := solid_inWords (e := e) h (solid_toPython (e := e) h 0)
    have htext : (not e).toPython.toList = "not".toList ++ ' ' :: e.inWords.toList := by
      rw [toPython_not, String.toList_append]
      rfl
    rw [htext, hnot.pieces_append, he.pieces_eq]
    rfl
  | .bin c l r, h => by
    obtain ⟨hl, hr⟩ := List.forall_mem_append.1 h
    have hl := solid_inWords hl (solid_toPython hl 0)
    have hr := solid_inWords hr (solid_toPython hr 0)
    have htext : (bin c l r).toPython.toList =
        l.inWords.toList ++ ' ' :: (c.word.toList ++ ' ' :: r.inWords.toList) := by
      simp [toPython_bin]
    rw [htext, hl.pieces_append, (solid_word c).pieces_append, hr.pieces_eq]
    rfl

/-- Markups that are the same text have the same parts. -/
theorem parts_eq_of_toPython_eq (hd : ∀ n ∈ d.occurrences, IsIdentifier n)
    (he : ∀ n ∈ e.occurrences, IsIdentifier n) (h : d.toPython = e.toPython) :
    d.parts = e.parts := by
  have hpieces := pieces_toPython hd
  rw [h, pieces_toPython he] at hpieces
  exact List.map_injective_iff.2 (fun _ _ => String.toList_inj.1) hpieces.symm

/-- **Operands that are the same text** have the same markup. -/
theorem toPython_eq_of_operand_eq (hd : ∀ n ∈ d.occurrences, IsIdentifier n)
    (he : ∀ n ∈ e.occurrences, IsIdentifier n) (h : d.inWords = e.inWords) :
    d.toPython = e.toPython := by
  have hparens {d e : Expr} (hd : ∀ n ∈ d.occurrences, IsIdentifier n) (hleaf : d.isLeaf = true)
      (hleaf' : e.isLeaf = false) : d.inWords ≠ e.inWords := by
    intro h
    have hmem : '(' ∈ d.inWords.toList := by
      rw [h, toList_inWords hleaf']
      exact List.mem_cons_self
    rw [inWords_of_isLeaf hleaf] at hmem
    nomatch isNameChar_of_isLeaf hleaf hd _ hmem
  cases hleaf : d.isLeaf <;> cases hleaf' : e.isLeaf
  · have hlist := congrArg String.toList h
    rw [toList_inWords hleaf, toList_inWords hleaf', List.cons.injEq, List.append_left_inj] at hlist
    exact String.toList_inj.1 hlist.2
  · exact absurd h.symm (hparens he hleaf' hleaf)
  · exact absurd h (hparens hd hleaf hleaf')
  · rwa [inWords_of_isLeaf hleaf, inWords_of_isLeaf hleaf'] at h

/-! ## Trees that share their markup -/

/-- **The tree in words alone**: a variable in the place of each constant, named by its word. -/
def worded : Expr → Expr
  | var n => var n
  | const b => var (const b).toPython
  | not e => not e.worded
  | bin c l r => bin c l.worded r.worded

theorem isLeaf_worded : ∀ e : Expr, e.worded.isLeaf = e.isLeaf
  | .var _ | .const _ | .not _ | .bin _ _ _ => rfl

theorem toPython_worded : ∀ e : Expr, e.worded.toPython = e.toPython
  | .var _ | .const _ => rfl
  | .not e => by rw [worded, toPython, toPython, isLeaf_worded, toPython_worded e]
  | .bin c l r => by
    rw [worded, toPython, toPython, isLeaf_worded, isLeaf_worded, toPython_worded l,
      toPython_worded r]

theorem worded_eq_of_toPython_eq : ∀ {d e : Expr}, (∀ n ∈ d.occurrences, IsIdentifier n) →
    (∀ n ∈ e.occurrences, IsIdentifier n) → d.toPython = e.toPython → d.worded = e.worded
  | .var _, .var _, _, _, h | .var _, .const _, _, _, h | .const _, .var _, _, _, h
  | .const _, .const _, _, _, h => congrArg var h
  | .not d, .not e, hd, he, h => by
    have hparts := parts_eq_of_toPython_eq hd he h
    have hoperand : d.inWords = e.inWords := by simpa [parts] using hparts
    exact congrArg not (worded_eq_of_toPython_eq hd he (toPython_eq_of_operand_eq hd he hoperand))
  | .bin c l r, .bin c' l' r', hd, he, h => by
    obtain ⟨hl, hr⟩ := List.forall_mem_append.1 hd
    obtain ⟨hl', hr'⟩ := List.forall_mem_append.1 he
    have hparts := parts_eq_of_toPython_eq hd he h
    obtain ⟨hleft, hword, hright⟩ :
        l.inWords = l'.inWords ∧ c.word = c'.word ∧ r.inWords = r'.inWords := by
      simpa [parts] using hparts
    rw [worded, worded, word_injective hword,
      worded_eq_of_toPython_eq hl hl' (toPython_eq_of_operand_eq hl hl' hleft),
      worded_eq_of_toPython_eq hr hr' (toPython_eq_of_operand_eq hr hr' hright)]
  | .var _, .not _, hd, he, h | .var _, .bin .., hd, he, h | .const _, .not _, hd, he, h
  | .const _, .bin .., hd, he, h | .not _, .var _, hd, he, h | .not _, .const _, hd, he, h
  | .not _, .bin .., hd, he, h | .bin .., .var _, hd, he, h | .bin .., .const _, hd, he, h
  | .bin .., .not _, hd, he, h => by
    have hlength := congrArg List.length (parts_eq_of_toPython_eq hd he h)
    nomatch hlength

/-- **Trees share their markup** exactly if they are the same in words. -/
theorem toPython_eq_iff (hd : ∀ n ∈ d.occurrences, IsIdentifier n)
    (he : ∀ n ∈ e.occurrences, IsIdentifier n) :
    d.toPython = e.toPython ↔ d.worded = e.worded := by
  refine ⟨worded_eq_of_toPython_eq hd he, fun h => ?_⟩
  rw [← toPython_worded d, h, toPython_worded]

/-- **A variable of the first tree is named like a constant of the second one.** -/
def Mimics (d e : Expr) : Prop := ∃ b, (const b).toPython ∈ d.occurrences ∧ const b ∈ e.subterms

theorem Mimics.not : d.Mimics e → (not d).Mimics (not e)
  | ⟨b, hd, he⟩ => ⟨b, hd, List.mem_cons_of_mem _ he⟩

theorem Mimics.bin_left {l l' : Expr} (c : Connective) (r r' : Expr) :
    l.Mimics l' → (bin c l r).Mimics (bin c l' r')
  | ⟨b, hl, hl'⟩ =>
    ⟨b, List.mem_append_left _ hl, List.mem_cons_of_mem _ (List.mem_append_left _ hl')⟩

theorem Mimics.bin_right {r r' : Expr} (c : Connective) (l l' : Expr) :
    r.Mimics r' → (bin c l r).Mimics (bin c l' r')
  | ⟨b, hr, hr'⟩ =>
    ⟨b, List.mem_append_right _ hr, List.mem_cons_of_mem _ (List.mem_append_right _ hr')⟩

theorem mimics_const (b : Bool) : (var (const b).toPython).Mimics (const b) :=
  ⟨b, List.mem_singleton_self _, List.mem_singleton_self _⟩

/-- **Trees that are the same in words are the same**, unless one has a variable named like a
constant of the other. -/
theorem eq_of_worded_eq : ∀ {d e : Expr}, ¬ d.Mimics e → ¬ e.Mimics d → d.worded = e.worded → d = e
  | .var _, .var _, _, _, h => h
  | .var n, .const b, hd, _, h => by
    obtain rfl := var.inj h
    exact absurd (mimics_const b) hd
  | .const b, .var n, _, he, h => by
    obtain rfl := var.inj h
    exact absurd (mimics_const b) he
  | .const a, .const b, _, _, h => by
    revert h
    cases a <;> cases b <;> decide
  | .not _, .not _, hd, he, h =>
    congrArg not (eq_of_worded_eq (mt Mimics.not hd) (mt Mimics.not he) (not.inj h))
  | .bin c l r, .bin _ l' r', hd, he, h => by
    obtain ⟨rfl, hleft, hright⟩ := bin.inj h
    rw [eq_of_worded_eq (mt (Mimics.bin_left c r r') hd) (mt (Mimics.bin_left c r' r) he) hleft,
      eq_of_worded_eq (mt (Mimics.bin_right c l l') hd) (mt (Mimics.bin_right c l' l) he) hright]
  | .var _, .not _, _, _, h | .var _, .bin .., _, _, h | .const _, .not _, _, _, h
  | .const _, .bin .., _, _, h | .not _, .var _, _, _, h | .not _, .const _, _, _, h
  | .not _, .bin .., _, _, h | .bin .., .var _, _, _, h | .bin .., .const _, _, _, h
  | .bin .., .not _, _, _, h => nomatch h

end Expr

/-! ## Texts that share their markup -/

namespace Formula

variable {room : Room} {text1 text2 : String} {f g : Formula}

theorem render_python (h : room.allows .python f.tree = true) :
    f.tree.render room "python" = .ok f.tree.toPython := by
  have hmarkup : Markup.ofName? "python" = some .python := Markup.ofName?_name .python
  rw [Expr.render, hmarkup]
  exact if_pos h

/-- **Texts share their markup in words** exactly if their trees are the same in words, wherever
there is room for writing them.  Then they have the same tree, and so the same variables and the
same value under every valuation, unless one of them has a variable named like a constant of the
other. -/
theorem render_eq_iff_worded (hf : compile text1 = .ok f) (hg : compile text2 = .ok g)
    (hroom1 : room.allows .python f.tree = true) (hroom2 : room.allows .python g.tree = true) :
    (f.tree.render room "python" = g.tree.render room "python" ↔
      f.tree.worded = g.tree.worded) ∧
    (¬ f.tree.Mimics g.tree → ¬ g.tree.Mimics f.tree →
      f.tree.render room "python" = g.tree.render room "python" →
        f.tree = g.tree ∧ f.names = g.names ∧ ∀ v, f.eval v = g.eval v) := by
  have hf := compile_eq_ok_iff.1 hf
  have hg := compile_eq_ok_iff.1 hg
  have hiff : f.tree.render room "python" = g.tree.render room "python" ↔
      f.tree.worded = g.tree.worded := by
    rw [render_python hroom1, render_python hroom2, Except.ok.injEq]
    exact Expr.toPython_eq_iff (fun _ => hf.spells.isIdentifier) fun _ => hg.spells.isIdentifier
  refine ⟨hiff, fun hmimics hmimics' hrender => ?_⟩
  have htree : f.tree = g.tree := Expr.eq_of_worded_eq hmimics hmimics' (hiff.1 hrender)
  refine ⟨htree, by rw [hf.names_eq, hg.names_eq, htree], fun v => ?_⟩
  rw [hf.eval_eq, hg.eval_eq, htree]

/-- Two spellings of one tree, whose variables are named like operators. -/
theorem render_eq_iff_worded_spellings : ∃ f g,
    compile "!(and+1) not" = .ok f ∧ compile "(and|1)'*not" = .ok g ∧
      Room.standard.allows .python f.tree = true ∧ Room.standard.allows .python g.tree = true ∧
      ¬ f.tree.Mimics g.tree ∧ ¬ g.tree.Mimics f.tree ∧
      f.tree.render .standard "python" = .ok "(not (and or True)) and not" ∧
      f.tree.render .standard "python" = g.tree.render .standard "python" ∧
      f.tree.worded = g.tree.worded ∧
      f.names = g.names ∧ ∀ v, f.eval v = g.eval v := by
  let tree : Expr := .bin .and (.not (.bin .or (.var "and") (.const true))) (.var "not")
  let f : Formula :=
    { text := "!(and+1) not"
      tokens := [.op .not true, .mark .lparen, .var "and", .plain (.conn .or), .const true,
        .mark .rparen, .plain (.conn .and), .var "not"]
      sequence := tree.postorder, names := ["and", "not"], tree }
  let g : Formula :=
    { text := "(and|1)'*not"
      tokens := [.mark .lparen, .var "and", .plain (.conn .or), .const true, .mark .rparen,
        .mark .prime, .plain (.conn .and), .var "not"]
      sequence := tree.postorder, names := ["and", "not"], tree }
  have hf : compile "!(and+1) not" = .ok f := by decide +kernel
  have hg : compile "(and|1)'*not" = .ok g := by decide +kernel
  have hroom : Room.standard.allows .python tree = true := by decide
  have hmimics : ¬ tree.Mimics tree := by
    rintro ⟨b, hword, -⟩
    cases b <;> exact absurd hword (by decide)
  have hrender : f.tree.render .standard "python" = g.tree.render .standard "python" := rfl
  obtain ⟨hiff, hsame⟩ := render_eq_iff_worded hf hg hroom hroom
  obtain ⟨-, hnames, heval⟩ := hsame hmimics hmimics hrender
  exact ⟨f, g, hf, hg, hroom, hroom, hmimics, hmimics, by decide +kernel, hrender, hiff.1 hrender,
    hnames, heval⟩

/-- **A variable named like a constant** shares its markup with the constant. -/
theorem render_true_eq_render_one : ∃ f g, compile "True" = .ok f ∧ compile "1" = .ok g ∧
    f.tree.render .standard "python" = .ok "True" ∧
    g.tree.render .standard "python" = .ok "True" ∧ f.names = ["True"] ∧ g.names = [] ∧
    f.eval (fun _ => some false) = .ok false ∧ g.eval (fun _ => some false) = .ok true := by
  let f : Formula :=
    { text := "True", tokens := [.var "True"], sequence := [.var "True"], names := ["True"]
      tree := .var "True" }
  let g : Formula :=
    { text := "1", tokens := [.const true], sequence := [.const true], names := []
      tree := .const true }
  have hf : compile "True" = .ok f := by decide +kernel
  have hg : compile "1" = .ok g := by decide +kernel
  exact ⟨f, g, hf, hg, rfl, rfl, rfl, rfl, rfl, rfl⟩

end Formula

end TruthTable
