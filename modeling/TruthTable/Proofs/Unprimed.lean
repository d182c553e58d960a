import TruthTable.Proofs.Layout

/-!
# Proofs/Unprimed — texts without apostrophes

Without apostrophes a value ends in a variable, a constant or a closing parenthesis, and behind each
of these an unwritten connective is filled in.  So no value can make up for a missing operand, and
the texts that compile are exactly those of the grammar without its level of apostrophes.

* `Unprimed` — that grammar.
* `unprimed_iff` — it spells the streams of the whole grammar that hold no apostrophe.
* `compile_iff_unprimed` — the texts without apostrophes that compile.
-/

namespace TruthTable

/-! ## The grammar without apostrophes -/

/-- **The stream spells the tree at the level**, without apostrophes.  Below negations in front
there is only the level of variables, constants and parentheses. -/
inductive Unprimed : Level → List Token → Expr → Prop
  | join {c ts us l r} (hl : Unprimed (.conn c) ts l) (hr : Unprimed (.under c) us r) :
    Unprimed (.conn c) (ts ++ .plain (.conn c) :: us) (.bin c l r)
  | under {c ts e} (h : Unprimed (.under c) ts e) : Unprimed (.conn c) ts e
  | not {ts e} (h : Unprimed .un ts e) : Unprimed .un (.op .not true :: ts) (.not e)
  | prim {ts e} (h : Unprimed .prim ts e) : Unprimed .un ts e
  | var (n : String) : Unprimed .prim [.var n] (.var n)
  | const (b : Bool) : Unprimed .prim [.const b] (.const b)
  | parens {ts e} (h : Unprimed (.conn .or) ts e) :
    Unprimed .prim (.mark .lparen :: (ts ++ [.mark .rparen])) e

variable {L : Level} {ts : List Token} {e : Expr}

theorem Unprimed.derives (h : Unprimed L ts e) : Derives L ts e := by
  induction h with
  | join _ _ ihl ihr => exact .join ihl ihr
  | under _ ih => exact .under ih
  | not _ ih => exact .not ih
  | prim _ ih => exact .post (.prim ih)
  | var n => exact .var n
  | const b => exact .const b
  | parens _ ih => exact .parens ih

theorem Unprimed.not_mem (h : Unprimed L ts e) : .mark .prime ∉ ts := by
  induction h with
  | under _ ih | prim _ ih => exact ih
  | _ => simp_all

/-- The level that takes the place of a level **without apostrophes**. -/
def Level.unprimed : Level → Level
  | post => prim
  | L => L

@[simp] theorem Level.unprimed_under (c : Connective) : (under c).unprimed = under c := by
  cases c <;> rfl

/-- A derivation of a stream without apostrophes has no step for them. -/
theorem Derives.unprimed (h : Derives L ts e) (hprime : .mark .prime ∉ ts) :
    Unprimed L.unprimed ts e := by
  induction h with
  | @join c ts us l r _ _ ihl ihr =>
    have hl := ihl fun h => hprime (List.mem_append_left _ h)
    have hr := ihr fun h => hprime (List.mem_append_right _ (List.mem_cons_of_mem _ h))
    exact .join hl (Level.unprimed_under c ▸ hr)
  | @under c ts e _ ih => exact .under (Level.unprimed_under c ▸ ih hprime)
  | not _ ih => exact .not (ih fun h => hprime (List.mem_cons_of_mem _ h))
  | post _ ih => exact .prim (ih hprime)
  | prime _ _ => exact absurd (List.mem_append_right _ (List.mem_singleton_self _)) hprime
  | prim _ ih => exact ih hprime
  | var n => exact .var n
  | const b => exact .const b
  | parens _ ih =>
    exact .parens (ih fun h => hprime (List.mem_cons_of_mem _ (List.mem_append_left _ h)))

/-- **Without apostrophes the grammar loses its level of them**, and nothing else. -/
theorem unprimed_iff {c : Connective} :
    Unprimed (.conn c) ts e ↔ Derives (.conn c) ts e ∧ .mark .prime ∉ ts :=
  ⟨fun h => ⟨h.derives, h.not_mem⟩, fun ⟨h, hprime⟩ => h.unprimed hprime⟩

/-! ## Texts without apostrophes -/

/-- An apostrophe among the tokens is one among the characters. -/
theorem Lexes.exists_apostrophe {cs : List Char} (h : Lexes cs ts) (hprime : .mark .prime ∈ ts) :
    ∃ c ∈ cs, c ∈ apostrophes := by
  obtain ⟨l, rfl, rfl⟩ := lexes_iff_layout.1 h
  obtain ⟨p, hp, htoken⟩ := List.mem_map.1 hprime
  have hspelled := p.spelled
  rw [htoken] at hspelled
  obtain ⟨c, hc, hspelling⟩ : ∃ c ∈ apostrophes, p.spelling = [c] := by
    generalize p.spelling = s at hspelled
    cases hspelled with
    | sign h => exact ⟨_, h, rfl⟩
  refine ⟨c, List.mem_append_right _ (List.mem_flatMap.2 ⟨p, hp, ?_⟩), hc⟩
  simp [hspelling]

/-- No apostrophe is filled in. -/
theorem mem_of_mem_insertAnds {t : Token} (ht : t ≠ .plain (.conn .and)) : ∀ {ts : List Token},
    t ∈ insertAnds ts → t ∈ ts
  | [], h => by rwa [insertAnds_nil] at h
  | [u], h => by rwa [insertAnds_singleton] at h
  | u :: v :: ts, h => by
    rw [insertAnds] at h
    have hrest (h : t ∈ insertAnds (v :: ts)) : t ∈ u :: v :: ts :=
      List.mem_cons_of_mem _ (mem_of_mem_insertAnds ht h)
    split at h
    · rcases List.mem_cons.1 h with rfl | h
      · exact List.mem_cons_self
      · exact hrest ((List.mem_cons.1 h).resolve_left ht)
    · rcases List.mem_cons.1 h with rfl | h
      · exact List.mem_cons_self
      · exact hrest h

/-- The variables of a derived tree are among the tokens. -/
theorem Derives.mem_of_occurrences (h : Derives L ts e) :
    ∀ n ∈ e.occurrences, .var n ∈ ts :=
  fun _ hn => Postfix.mem_names_iff.1 (h.names_eq ▸ hn)

namespace Formula

/-- **The text is one of the grammar without apostrophes**: it is scanned, and with each `and`
written out its tokens spell the tree there. -/
def SpellsUnprimed (text : String) (e : Expr) : Prop :=
  ∃ ts, scan (normalize text.toList) = .ok ts ∧ Unprimed (.conn .or) (insertAnds ts) e

variable {text : String}

/-- **A text without apostrophes spells a tree** exactly in the grammar without them. -/
theorem spells_iff_spellsUnprimed (h : ∀ c ∈ text.toList, c ∉ apostrophes) :
    Spells text e ↔ SpellsUnprimed text e := by
  constructor
  · rintro ⟨tokens, sequence, htext, hseq, htree⟩
    obtain ⟨ts, hlexes, rfl⟩ := tokenize_eq_ok_iff.1 htext
    have hprime : .mark .prime ∉ insertAnds ts := fun hprime =>
      have ⟨c, hc, ha⟩ := hlexes.exists_apostrophe (mem_of_mem_insertAnds (by simp) hprime)
      h c hc ha
    have hapart : PrimesApart (insertAnds ts) := fun us t vs hts =>
      absurd (by simp [hts]) hprime
    obtain ⟨d, hd⟩ := derivable_of_toExpr htext hseq htree hapart
    obtain rfl := Except.ok.inj (hseq.symm.trans hd.ofInfix)
    obtain rfl := Except.ok.inj (htree.symm.trans (Postfix.toExpr_postorder d))
    exact ⟨ts, scan_normalize_iff.2 hlexes, unprimed_iff.2 ⟨hd, hprime⟩⟩
  · rintro ⟨ts, hscan, hts⟩
    have htokens : tokenize text = .ok (insertAnds ts) :=
      tokenize_eq_ok_iff.2 ⟨ts, scan_normalize_iff.1 hscan, rfl⟩
    exact ⟨_, _, htokens, hts.derives.ofInfix, Postfix.toExpr_postorder e⟩

/-- **The texts without apostrophes that compile** are those of the grammar without them, variables
past the digit limit aside, and they compile to the tree that they spell there.  Every other one is
refused. -/
theorem compile_iff_unprimed (h : ∀ c ∈ text.toList, c ∉ apostrophes)
    (hlimit : ∀ ts, scan (normalize text.toList) = .ok ts →
      ∀ n, .var n ∈ ts → VarName.WithinLimit n) :
    ((∃ f, compile text = .ok f) ↔ ∃ e, SpellsUnprimed text e) ∧
    (∀ f e, compile text = .ok f → SpellsUnprimed text e → f.tree = e) ∧
    ((∃ x, compile text = .error (.expr x)) ↔ ¬ ∃ e, SpellsUnprimed text e) := by
  simp only [← spells_iff_spellsUnprimed h]
  refine ⟨⟨fun ⟨f, hf⟩ => ?_, fun ⟨e, he⟩ => ?_⟩, fun f e hf he => ?_,
    ⟨fun ⟨x, hx⟩ => ?_, fun hno => ?_⟩⟩
  · exact ⟨_, (compile_eq_ok_iff.1 hf).spells⟩
  · obtain ⟨ts, hscan, hts⟩ := (spells_iff_spellsUnprimed h).1 he
    have hwithin : ∀ n ∈ e.occurrences, VarName.WithinLimit n := fun n hn =>
      hlimit ts hscan n (mem_of_mem_insertAnds (by simp) (hts.derives.mem_of_occurrences n hn))
    obtain ⟨f, hf, -⟩ := he.exists_compiledFrom hwithin
    exact ⟨f, compile_eq_ok_iff.2 hf⟩
  · exact (compile_eq_ok_iff.1 hf).spells.unique he
  · exact fun ⟨e, he⟩ => he.not_refused (compile_eq_expr_iff.1 hx)
  · obtain ⟨x, hx⟩ := (spells_or_refused text).resolve_left hno
    exact ⟨x, compile_eq_expr_iff.2 hx⟩

/-- A text of the grammar, with an `and` left unwritten, and one with empty parentheses. -/
theorem compile_iff_unprimed_parens :
    SpellsUnprimed "~(A|1) B" (.bin .and (.not (.bin .or (.var "A") (.const true))) (.var "B")) ∧
      ¬ ∃ e, SpellsUnprimed "A+()" e := by
  have hlimit {text : String} {us : List Token} (hscan : scan (normalize text.toList) = .ok us)
      (hus : ∀ n ∈ Postfix.names us, VarName.WithinLimit n) :
      ∀ ts, scan (normalize text.toList) = .ok ts → ∀ n, .var n ∈ ts → VarName.WithinLimit n := by
    intro ts hts n hn
    obtain rfl := Except.ok.inj (hscan.symm.trans hts)
    exact hus n (List.mem_filterMap.2 ⟨_, hn, rfl⟩)
  have hscan : scan (normalize "~(A|1) B".toList) = .ok [.op .not true, .mark .lparen, .var "A",
      .plain (.conn .or), .const true, .mark .rparen, .var "B"] := by decide +kernel
  have hscan' : scan (normalize "A+()".toList) = .ok [.var "A", .plain (.conn .or), .mark .lparen,
      .mark .rparen] := by decide +kernel
  have hnone (cs : List Char) (h : (cs.all fun c => decide (c ∉ apostrophes)) = true) :
      ∀ c ∈ cs, c ∉ apostrophes := fun c hc => of_decide_eq_true (List.all_eq_true.1 h c hc)
  have hfree : ∀ c ∈ "~(A|1) B".toList, c ∉ apostrophes := hnone _ (by decide)
  have hfree' : ∀ c ∈ "A+()".toList, c ∉ apostrophes := hnone _ (by decide)
  obtain ⟨hok, htree, -⟩ := compile_iff_unprimed hfree (hlimit hscan (by decide +kernel))
  obtain ⟨-, -, hrefused⟩ := compile_iff_unprimed hfree' (hlimit hscan' (by decide +kernel))
  constructor
  · let f : Formula :=
      { text := "~(A|1) B"
        tokens := [.op .not true, .mark .lparen, .var "A", .plain (.conn .or), .const true,
          .mark .rparen, .plain (.conn .and), .var "B"]
        sequence := [.var "A", .const true, .plain (.conn .or), .plain .not, .var "B",
          .plain (.conn .and)]
        names := ["A", "B"]
        tree := .bin .and (.not (.bin .or (.var "A") (.const true))) (.var "B") }
    have hf : compile "~(A|1) B" = .ok f := by decide +kernel
    obtain ⟨e, he⟩ := hok.1 ⟨f, hf⟩
    obtain rfl := htree f e hf he
    exact he
  · exact hrefused.1 ⟨.malformed (.missingOperand (.conn .or)), by decide +kernel⟩

end Formula

end TruthTable
