import Mathlib.Data.List.Basic
import TruthTable.Proofs.Yard

/-!
# Proofs/Places — any list of tokens in postfix order

A list of tokens need not be well-formed to be put in postfix order: only its parentheses are looked
at, and what comes out is known without them.  The operands stay in their order, since none of them
is overtaken, and each operator is found again behind the operands that it stood behind.

* `balanced_iff_count` — balanced parentheses by counting along the prefixes.
* `Reordering.filter_isOperand_eq` — the operands keep their order.
* `Reordering.pair_sublist` — each token stays behind the operands in front of it.
* `reordering_of_any_list` — which lists are refused, and what comes of the others.
-/

namespace TruthTable

/-- The operator that the token **stands for**; an apostrophe stands for negation. -/
def Token.operator? : Token → Option Operator
  | op o _ => some o
  | mark .prime => some .not
  | _ => none

/-! ## Parentheses -/

theorem forall_prefix_cons_iff {t : Token} {ts : List Token} {P : List Token → Prop} :
    (∀ read, read <+: t :: ts → P read) ↔ P [] ∧ ∀ read, read <+: ts → P (t :: read) := by
  constructor
  · exact fun h => ⟨h [] List.nil_prefix, fun read hread =>
      h _ (List.cons_prefix_cons.2 ⟨rfl, hread⟩)⟩
  · rintro ⟨hnil, hcons⟩ read hread
    rcases List.prefix_cons_iff.1 hread with rfl | ⟨rest, rfl, hrest⟩
    · exact hnil
    · exact hcons rest hrest

/-- **Parentheses balance** where none closes more than are open in front of it, and as many close
as open. -/
theorem balanced_iff_count : ∀ {ts : List Token} {depth : Nat}, Balanced depth ts ↔
    (∀ read, read <+: ts →
      read.count (.mark .rparen) ≤ depth + read.count (.mark .lparen)) ∧
    depth + ts.count (.mark .lparen) = ts.count (.mark .rparen)
  | [], depth => by simp [Balanced]
  | .var _ :: ts, depth | .const _ :: ts, depth | .op _ _ :: ts, depth
  | .mark .prime :: ts, depth => by
    refine (@balanced_iff_count ts depth).trans ?_
    simp [forall_prefix_cons_iff]
  | .mark .lparen :: ts, depth => by
    refine (@balanced_iff_count ts (depth + 1)).trans ?_
    simp [forall_prefix_cons_iff, Nat.add_assoc, Nat.add_comm 1]
  | .mark .rparen :: ts, 0 => by
    refine iff_of_false id fun hcount => ?_
    have hfirst := hcount.1 [.mark .rparen] (List.cons_prefix_cons.2 ⟨rfl, List.nil_prefix⟩)
    simp at hfirst
  | .mark .rparen :: ts, depth + 1 => by
    refine (@balanced_iff_count ts depth).trans ?_
    simp [forall_prefix_cons_iff, Nat.add_right_comm depth 1]

variable {ts seq : List Token} {order : List (Token × Nat)}

/-- **A list of tokens is refused** exactly when its parentheses do not balance. -/
theorem ofInfix_eq_error_iff {e : ExprError} : Postfix.ofInfix ts = .error e ↔
    e = .mismatchedParens ∧
      ((∃ read, read <+: ts ∧ read.count (.mark .lparen) < read.count (.mark .rparen)) ∨
        ts.count (.mark .lparen) ≠ ts.count (.mark .rparen)) := by
  have hrefused : (∃ d, Postfix.ofInfix ts = .error d) ↔ ¬ Balanced 0 ts := by
    rw [← Postfix.exists_ofInfix_iff]
    cases Postfix.ofInfix ts <;> simp
  rw [balanced_iff_count, not_and_or] at hrefused
  simp only [Nat.zero_add, not_forall, Nat.not_le, exists_prop] at hrefused
  rw [← hrefused]
  constructor
  · exact fun h => ⟨Postfix.ofInfix_eq_error h, e, h⟩
  · rintro ⟨rfl, d, h⟩
    obtain rfl := Postfix.ofInfix_eq_error h
    exact h

/-! ## Places -/

namespace Postfix

theorem pairwise_places (ts : List Token) : (places ts).Pairwise fun a b => a.2 < b.2 := by
  have hsnd : (ts.zipIdx.map Prod.snd).Pairwise (· < ·) := by
    rw [List.zipIdx_map_snd]
    exact List.pairwise_lt_range'
  exact (List.pairwise_map.1 hsnd).filter _

theorem map_fst_places (ts : List Token) :
    (places ts).map Prod.fst = ts.filter fun t => t.shunted?.isSome := by
  have hfilter := List.filter_map (f := Prod.fst) (p := fun t : Token => t.shunted?.isSome)
    (l := ts.zipIdx)
  rw [List.zipIdx_map_fst] at hfilter
  exact hfilter.symm

/-- Two places in a list are one behind the other. -/
theorem pair_sublist_or {a b : Token × Nat} : ∀ {order : List (Token × Nat)}, a ∈ order →
    b ∈ order → a ≠ b → [a, b].Sublist order ∨ [b, a].Sublist order
  | c :: order, ha, hb, hne => by
    rcases List.mem_cons.1 ha with rfl | ha'
    · have hb' := (List.mem_cons.1 hb).resolve_left (Ne.symm hne)
      exact .inl ((List.singleton_sublist.2 hb').cons_cons _)
    · rcases List.mem_cons.1 hb with rfl | hb'
      · exact .inr ((List.singleton_sublist.2 ha').cons_cons _)
      · exact (pair_sublist_or ha' hb' hne).imp (.cons _) (.cons _)

/-- **Each token stays behind the operands in front of it.** -/
theorem Reordering.pair_sublist (h : Reordering ts seq order) {a b : Token × Nat}
    (ha : a ∈ order) (hb : b ∈ order) (hoperand : a.1.isOperand = true) (hlt : a.2 < b.2) :
    [a, b].Sublist order := by
  refine (pair_sublist_or ha hb fun hab => ?_).resolve_right fun hsub => ?_
  · rw [hab] at hlt
    exact Nat.lt_irrefl _ hlt
  · have hbehind := List.pairwise_pair.1 (h.behind.sublist hsub)
    exact Nat.lt_asymm hlt (hbehind hoperand)

/-- **The operands of the sequence** are those of the places, as they stand in it. -/
theorem Reordering.filter_map_fst (h : Reordering ts seq order) :
    (order.map Prod.fst).filter Token.isOperand = seq.filter Token.isOperand := by
  have hoperand (t : Token) :
      t.shunted?.filter Token.isOperand = Option.guard Token.isOperand t := by
    rcases t with _ | _ | ⟨_ | _ | _⟩ | _ <;> rfl
  rw [← h.filterMap_eq, List.filter_filterMap, ← List.filterMap_eq_filter, List.filterMap_map]
  exact congrArg (List.filterMap · order) (funext fun p => (hoperand p.1).symm)

/-- **The operands keep their order.** -/
theorem Reordering.filter_isOperand_eq (h : Reordering ts seq order) :
    seq.filter Token.isOperand = ts.filter Token.isOperand := by
  have hsorted : (order.filter (Token.isOperand ∘ Prod.fst)).Pairwise fun a b => a.2 < b.2 :=
    (h.behind.filter _).imp_of_mem fun _ hb hlt => hlt (List.mem_filter.1 hb).2
  have heq : order.filter (Token.isOperand ∘ Prod.fst) =
      (places ts).filter (Token.isOperand ∘ Prod.fst) :=
    (h.perm.filter _).eq_of_pairwise (fun _ _ _ _ hab hba => (Nat.lt_asymm hab hba).elim)
      hsorted ((pairwise_places ts).filter _)
  calc seq.filter Token.isOperand
      = (order.map Prod.fst).filter Token.isOperand := h.filter_map_fst.symm
    _ = (order.filter (Token.isOperand ∘ Prod.fst)).map Prod.fst := List.filter_map
    _ = ((places ts).map Prod.fst).filter Token.isOperand := by rw [heq, List.filter_map]
    _ = ts.filter Token.isOperand := by
      rw [map_fst_places, List.filter_filter]
      refine List.filter_congr fun t _ => ?_
      rcases t with _ | _ | ⟨_ | _ | _⟩ | _ <;> rfl

/-- **No operator is lost or added.** -/
theorem count_operator?_of_ofInfix (h : ofInfix ts = .ok seq) (o : Operator) :
    (seq.filterMap Token.operator?).count o = (ts.filterMap Token.operator?).count o := by
  have hoperator (t : Token) : t.shunted?.bind Token.operator? = t.operator? := by
    rcases t with _ | _ | ⟨_ | _ | _⟩ | _ <;> rfl
  have hperm := (perm_of_ofInfix h).filterMap Token.operator?
  rw [List.filterMap_filterMap] at hperm
  simp only [hoperator] at hperm
  exact hperm.count_eq o

end Postfix

/-- **Any list of tokens is put in postfix order**, if only its parentheses balance: it is refused
exactly when one of them closes where none is open or one stays open, and for nothing else.  What
comes of it has no marks and no notes of standing in front; it has the operands in their order and
as many operators of each kind, an apostrophe counting as a negation.  Each of its tokens can be
traced back to a place in the list, and stands behind all operands that it stood behind there. -/
theorem reordering_of_any_list (ts : List Token) :
    (∀ e, Postfix.ofInfix ts = .error e ↔ e = .mismatchedParens ∧
      ((∃ read, read <+: ts ∧ read.count (.mark .lparen) < read.count (.mark .rparen)) ∨
        ts.count (.mark .lparen) ≠ ts.count (.mark .rparen))) ∧
    ∀ seq, Postfix.ofInfix ts = .ok seq →
      (∀ m, .mark m ∉ seq) ∧ (∀ o, .op o true ∉ seq) ∧
      seq.filter Token.isOperand = ts.filter Token.isOperand ∧
      (∀ o, (seq.filterMap Token.operator?).count o = (ts.filterMap Token.operator?).count o) ∧
      ∃ order : List (Token × Nat),
        order.Perm (ts.zipIdx.filter fun p => p.1.shunted?.isSome) ∧
        order.map (fun p => p.1.shunted?) = seq.map some ∧
        ∀ a ∈ order, ∀ b ∈ order, a.1.isOperand = true → a.2 < b.2 → [a, b].Sublist order := by
  refine ⟨fun e => ofInfix_eq_error_iff, fun seq hseq => ?_⟩
  obtain ⟨hmarks, hnotes⟩ := Postfix.not_mem_of_ofInfix hseq
  obtain ⟨order, horder⟩ := Postfix.exists_reordering hseq
  exact ⟨hmarks, hnotes, horder.filter_isOperand_eq, Postfix.count_operator?_of_ofInfix hseq, order,
    horder.perm, horder.leaves, fun _ ha _ hb => horder.pair_sublist ha hb⟩

/-- A list without any sense: the connective in parentheses has no right operand, and both it and
the constant stay behind the variable. -/
theorem reordering_of_any_list_senseless :
    let ts : List Token := [.op .not true, .plain (.conn .or), .mark .lparen, .var "a",
      .mark .prime, .op (.conn .and) true, .mark .rparen, .const true]
    let seq : List Token := [.plain .not, .var "a", .plain .not, .plain (.conn .and), .const true,
      .plain (.conn .or)]
    Postfix.ofInfix ts = .ok seq ∧ (∀ m, .mark m ∉ seq) ∧ (∀ o, .op o true ∉ seq) ∧
      seq.filter Token.isOperand = ts.filter Token.isOperand ∧
      (seq.filterMap Token.operator?).count .not = (ts.filterMap Token.operator?).count .not ∧
      ∃ order : List (Token × Nat),
        order.Perm (ts.zipIdx.filter fun p => p.1.shunted?.isSome) ∧
        order.map (fun p => p.1.shunted?) = seq.map some ∧
        [(.var "a", 3), (.op (.conn .and) true, 5)].Sublist order ∧
        [(.var "a", 3), (.const true, 7)].Sublist order := by
  intro ts seq
  have hseq : Postfix.ofInfix ts = .ok seq := rfl
  obtain ⟨-, hok⟩ := reordering_of_any_list ts
  obtain ⟨hmarks, hnotes, hoperands, hoperators, order, hperm, hleaves, hbehind⟩ := hok seq hseq
  have hmem {p : Token × Nat} (hp : p ∈ Postfix.places ts) : p ∈ order := hperm.mem_iff.2 hp
  have hvar : (.var "a", 3) ∈ order := hmem (by decide)
  refine ⟨hseq, hmarks, hnotes, hoperands, hoperators .not, order, hperm, hleaves, ?_, ?_⟩
  · exact hbehind _ hvar _ (hmem (by decide)) rfl (by decide)
  · exact hbehind _ hvar _ (hmem (by decide)) rfl (by decide)

end TruthTable
