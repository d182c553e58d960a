import TruthTable.Proofs.Formula
import TruthTable.Proofs.Grammar.Reordering
import TruthTable.Proofs.Stream
import TruthTable.Proofs.Yard

/-!
# Proofs/Acceptance — how far the accepted texts go beyond the grammar

A tree has one leaf more than connectives, and that is all the reordered sequence shows of a missing
operand.  In a stream a value too many is only found right behind an apostrophe, where no connective
is filled in; it makes up for an operand that is missing elsewhere.  Without such a value the count
leaves no room, and the stream alternates.

* `alternates_of_countP` — the count, along the stream.
* `PrimesApart` — no value stands right behind an apostrophe.
* `derivable_iff_not_refused` — the texts of the language.
-/

namespace TruthTable

/-! ## Operands and connectives -/

namespace Token

/-- A token that stands for a connective. -/
def isConnective : Token → Bool
  | op (.conn _) _ => true
  | _ => false

/-- **The balance of one token**: an operand is a value more and a connective one less, and both
show in whether a value is to come, before the token and after it. -/
theorem toNat_isOperand_add : ∀ {t : Token}, t.lexical = true →
    t.isOperand.toNat + (!t.closes).toNat = t.isConnective.toNat + t.startsValue.toNat
  | var _, _ | const _, _ | mark .lparen, _ | mark .rparen, _ | mark .prime, _ => rfl
  | op .not true, _ | op (.conn _) false, _ => rfl

/-- **The token may stand behind the other one**: it starts no value right behind a value. -/
def Admits (t u : Token) : Prop := t.closes = true → u.startsValue = false

end Token

/-- A tree has one leaf more than connectives. -/
theorem Expr.countP_postorder : ∀ e : Expr,
    e.postorder.countP Token.isOperand = e.postorder.countP Token.isConnective + 1
  | var _ | const _ => rfl
  | not e => by
    rw [postorder, List.countP_append, List.countP_append, countP_postorder e]
    rfl
  | bin c l r => by
    have hoperand : [Token.plain (.conn c)].countP Token.isOperand = 0 := rfl
    have hconnective : [Token.plain (.conn c)].countP Token.isConnective = 1 := rfl
    simp only [postorder, List.countP_append, countP_postorder l, countP_postorder r, hoperand,
      hconnective]
    omega

/-- **The reordering keeps the operands and the connectives**, so a stream that denotes a tree has
one operand more. -/
theorem countP_of_toExpr {ts seq : List Token} {e : Expr} (hseq : Postfix.ofInfix ts = .ok seq)
    (htree : Postfix.toExpr seq = .ok e) :
    ts.countP Token.isOperand = ts.countP Token.isConnective + 1 := by
  have hcount (p : Token → Bool) (hplain : ∀ t : Token, p t.plainly = p t)
      (hshunt : ∀ t : Token, (t.shunted?.map p).getD false = p t) :
      ts.countP p = e.postorder.countP p := by
    have hperm := (Postfix.perm_of_ofInfix hseq).countP_eq p
    simp only [List.countP_filterMap, hshunt] at hperm
    rw [← Postfix.toExpr_eq_ok_iff.1 htree, List.countP_map, ← hperm]
    simp only [Function.comp_def, hplain]
  rw [hcount Token.isOperand, hcount Token.isConnective, e.countP_postorder]
  · rintro (_ | _ | _ | ⟨_ | _⟩) <;> rfl
  · rintro (_ | _ | ⟨_ | _ | _⟩ | ⟨_ | _⟩) <;> rfl
  · rintro (_ | _ | _ | ⟨_ | _⟩) <;> rfl
  · rintro (_ | _ | ⟨_ | _ | _⟩ | ⟨_ | _⟩) <;> rfl

/-! ## The count along a stream -/

theorem countP_cons_toNat (p : Token → Bool) (t : Token) (ts : List Token) :
    (t :: ts).countP p = (p t).toNat + ts.countP p := by
  rw [List.countP_cons, Nat.add_comm]
  cases p t <;> rfl

/-- **Values do not pile up** where none starts right behind another. -/
theorem countP_isOperand_le : ∀ {prev : Token} {ts : List Token}, (∀ t ∈ ts, t.lexical = true) →
    (prev :: ts).IsChain Token.Admits →
      ts.countP Token.isOperand ≤ ts.countP Token.isConnective + (!prev.closes).toNat
  | _, [], _, _ => Nat.zero_le _
  | prev, t :: ts, hlex, hchain => by
    obtain ⟨ht, hlex⟩ := List.forall_mem_cons.1 hlex
    obtain ⟨hstart, hchain⟩ := List.isChain_cons_cons.1 hchain
    have ih := countP_isOperand_le hlex hchain
    have hbalance := Token.toNat_isOperand_add ht
    have hle : t.startsValue.toNat ≤ (!prev.closes).toNat := by
      cases hc : prev.closes with
      | false => exact Bool.toNat_le _
      | true => rw [hstart hc]; exact Nat.zero_le _
    rw [countP_cons_toNat, countP_cons_toNat]
    omega

/-- **A stream with as many values as it has room for alternates.** -/
theorem alternates_of_countP : ∀ {prev : Token} {ts : List Token}, (∀ t ∈ ts, t.lexical = true) →
    (prev :: ts).IsChain Token.Admits →
      ts.countP Token.isOperand = ts.countP Token.isConnective + (!prev.closes).toNat →
      Alternates prev.closes ts
  | prev, [], _, _, hcount => by
    cases hc : prev.closes with
    | true => rfl
    | false => rw [hc] at hcount; nomatch hcount
  | prev, t :: ts, hlex, hchain, hcount => by
    obtain ⟨ht, hlex⟩ := List.forall_mem_cons.1 hlex
    obtain ⟨hstart, hchain⟩ := List.isChain_cons_cons.1 hchain
    have hroom := countP_isOperand_le hlex hchain
    have hbalance := Token.toNat_isOperand_add ht
    rw [countP_cons_toNat, countP_cons_toNat] at hcount
    have hle : (!prev.closes).toNat ≤ t.startsValue.toNat := by omega
    have heq : t.startsValue = !prev.closes := by
      cases hc : prev.closes with
      | true => exact hstart hc
      | false =>
        rw [hc] at hle
        exact Bool.toNat_eq_one.1 (Nat.le_antisymm (Bool.toNat_le _) hle)
    refine ⟨heq, alternates_of_countP hlex hchain ?_⟩
    rw [heq] at hbalance
    omega

/-! ## The texts of the language -/

/-- **No value stands right behind an apostrophe.** -/
def PrimesApart (ts : List Token) : Prop :=
  ∀ us t vs, ts = us ++ .mark .prime :: t :: vs → t.startsValue = false

theorem Alternates.isChain : ∀ {closed : Bool} {ts : List Token}, Alternates closed ts →
    ts.IsChain Token.Admits
  | _, [], _ => .nil
  | _, [t], _ => .singleton t
  | _, t :: u :: ts, ⟨_, hrest⟩ =>
    .cons_cons (fun ht => by rw [hrest.1, ht]; rfl) hrest.isChain

theorem Derivable.primesApart {ts : List Token} (h : Derivable (.conn .or) ts) :
    PrimesApart ts := by
  intro us t vs hts
  have hchain := (derivable_iff_wellFormed.1 h).alternates.isChain
  exact List.isChain_iff_forall_rel_of_append_cons_cons.1 hchain hts rfl

/-- A derivable stream leaves no connective unwritten. -/
theorem Derivable.insertAnds_eq_self {ts : List Token} (h : Derivable (.conn .or) ts) :
    insertAnds ts = ts := by
  have hchain := (derivable_iff_wellFormed.1 h).alternates.isChain
  refine TruthTable.insertAnds_eq_self (hchain.imp fun t u hadmits => ?_)
  rw [Token.junction]
  cases hends : t.endsValue with
  | false => rfl
  | true => rw [hadmits (by rw [Token.closes, hends, Bool.true_or]), Bool.true_and]

variable {text : String} {ts : List Token}

/-- Where none stands right behind an apostrophe, no value stands right behind another. -/
theorem PrimesApart.isChain (h : PrimesApart ts) (htext : tokenize text = .ok ts) :
    ts.IsChain Token.Admits := by
  refine List.isChain_iff_forall_rel_of_append_cons_cons.2 fun t u us vs hts hcloses => ?_
  have hjunction : t.junction u = false :=
    List.isChain_iff_forall_rel_of_append_cons_cons.1 (isChain_of_tokenize htext) hts
  rw [Token.closes, Bool.or_eq_true] at hcloses
  rcases hcloses with hends | hprime
  · rwa [Token.junction, hends, Bool.true_and] at hjunction
  · obtain rfl := eq_of_beq hprime
    exact h us u vs hts

/-- **A stream that denotes a tree is derivable** unless a value stands right behind an
apostrophe. -/
theorem derivable_of_toExpr {seq : List Token} {e : Expr} (htext : tokenize text = .ok ts)
    (hseq : Postfix.ofInfix ts = .ok seq) (htree : Postfix.toExpr seq = .ok e)
    (h : PrimesApart ts) : Derivable (.conn .or) ts := by
  have hlex := lexical_of_tokenize htext
  -- In front of the stream stands what completes no value, such as an open parenthesis.
  have hchain : (.mark .lparen :: ts).IsChain Token.Admits :=
    List.isChain_cons.2 ⟨fun _ _ h => (nomatch h), h.isChain htext⟩
  have halternates := alternates_of_countP hlex hchain (countP_of_toExpr hseq htree)
  exact derivable_iff_wellFormed.2
    ⟨hlex, halternates, Postfix.exists_ofInfix_iff.1 ⟨seq, hseq⟩⟩

/-- **The texts of the language** are those that are not refused and have no value right behind an
apostrophe. -/
theorem derivable_iff_not_refused (text : String) :
    (∃ ts, tokenize text = .ok ts ∧ Derivable (.conn .or) ts) ↔
      (∀ e, Formula.compile text ≠ .error (.expr e)) ∧
        ∀ ts, tokenize text = .ok ts → PrimesApart ts := by
  constructor
  · rintro ⟨ts, htext, h⟩
    constructor
    · intro e he
      obtain ⟨t, ht⟩ := h
      have hspells : Formula.Spells text t :=
        ⟨ts, t.postorder, htext, ht.ofInfix, Postfix.toExpr_postorder t⟩
      exact hspells.not_refused (Formula.compile_eq_expr_iff.1 he)
    · intro us hus
      obtain rfl := Except.ok.inj (htext.symm.trans hus)
      exact h.primesApart
  · rintro ⟨hrefused, hapart⟩
    obtain ⟨t, ts, seq, htext, hseq, htree⟩ : ∃ t, Formula.Spells text t :=
      (Formula.spells_or_refused text).resolve_right fun ⟨e, he⟩ =>
        hrefused e (Formula.compile_eq_expr_iff.2 he)
    exact ⟨ts, htext, derivable_of_toExpr htext hseq htree (hapart ts htext)⟩

/-- The value right behind an apostrophe takes the place of a missing operand: `A'B+` is accepted,
although it is no text of the language. -/
theorem compile_missing_operand : ∃ f, Formula.compile "A'B+" = .ok f ∧
    tokenize "A'B+" = .ok f.tokens ∧ f.tree = .bin .or (.not (.var "A")) (.var "B") ∧
      ¬ Derivable (.conn .or) f.tokens := by
  let f : Formula :=
    { text := "A'B+"
      tokens := [.var "A", .mark .prime, .var "B", .plain (.conn .or)]
      sequence := [.var "A", .plain .not, .var "B", .plain (.conn .or)]
      names := ["A", "B"]
      tree := .bin .or (.not (.var "A")) (.var "B") }
  refine ⟨f, by decide +kernel, by decide +kernel, rfl, fun h => ?_⟩
  have halternates := (derivable_iff_wellFormed.1 h).alternates
  exact absurd halternates (by decide)

end TruthTable
