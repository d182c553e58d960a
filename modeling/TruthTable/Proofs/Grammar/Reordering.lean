import TruthTable.Postfix
import TruthTable.Proofs.Grammar

/-!
# Proofs/Grammar/Reordering — derivable streams come out in the postorder of their trees

A stream of a level, read in the middle of another one, leaves some of its operators waiting.
They bind at least as tight as the level, and letting them out completes the postorder of the tree.
`Yard.Reads` says so from any state in which no connective of the level lets anything out; there is
one lemma for each production of the grammar.

* `Derives.reads` — the yard reads every derivable stream.
* `ofInfix_of_derives` — the postfix sequence of a derivable stream is the postorder of its tree,
  and denotes the tree.
-/

namespace TruthTable

namespace Postfix.Yard

/-! ## What waits -/

/-- **Nothing goes out** of what waits. -/
def Settled (p : Operator → Bool) (ps : List Pending) : Prop :=
  ∀ out, release p out ps = ⟨out, ps⟩

theorem settled_nil (p : Operator → Bool) : Settled p [] := fun _ => rfl

theorem settled_barrier (p : Operator → Bool) (ps : List Pending) : Settled p (.barrier :: ps) :=
  fun _ => rfl

theorem settled_op {p : Operator → Bool} {o : Operator} (h : p o = false) (ps : List Pending) :
    Settled p (.op o :: ps) := fun out => by
  rw [release, if_neg (by simp [h])]

/-- Negation in front lets nothing out. -/
theorem settled_not : ∀ ps : List Pending, Settled (Operator.yieldsTo · .not) ps
  | [] => settled_nil _
  | .barrier :: ps => settled_barrier _ ps
  | .op .not :: ps => settled_op (by decide) ps
  | .op (.conn c) :: ps => settled_op (by cases c <;> decide) ps

/-- A connective lets out what binds at least as tight. -/
theorem yieldsTo_conn (o : Operator) (c : Connective) :
    o.yieldsTo (.conn c) = decide (c.precedence ≤ o.precedence) := rfl

/-- **Operators above settled ones go out**, the latest first. -/
theorem release_append {p : Operator → Bool} {ps : List Pending} (hps : Settled p ps) :
    ∀ {os : List Operator}, (∀ o ∈ os, p o = true) → ∀ out,
      release p out (os.map .op ++ ps) = ⟨(os.map Token.plain).reverse ++ out, ps⟩
  | [], _, out => hps out
  | o :: os, hos, out => by
    rw [List.map_cons, List.cons_append, release, if_pos (hos o (by simp)),
      release_append hps (fun q hq => hos q (by simp [hq]))]
    simp

/-! ## Reading a stream of a level -/

/-- **The yard reads the stream as the sequence**, in the middle of any stream: where no connective
of the level lets anything out, the stream leaves operators of the level waiting, and these complete
the sequence. -/
def Reads (L : Level) (ts seq : List Token) : Prop :=
  ∀ out ps, (∀ c : Connective, L.floor ≤ c.precedence →
      Settled (Operator.yieldsTo · (.conn c)) ps) →
    ∃ (out' : List Token) (os : List Operator),
      ts.foldlM step ⟨out, ps⟩ = .ok ⟨out', os.map .op ++ ps⟩ ∧
      (∀ o ∈ os, L.floor ≤ o.precedence) ∧
      (os.map Token.plain).reverse ++ out' = seq.reverse ++ out

theorem Reads.mono {L M : Level} {ts seq : List Token} (hLM : L.floor ≤ M.floor)
    (h : Reads M ts seq) : Reads L ts seq := by
  intro out ps hps
  obtain ⟨out', os, hrun, hos, hout⟩ := h out ps fun c hc => hps c (Nat.le_trans hLM hc)
  exact ⟨out', os, hrun, fun o ho => Nat.le_trans hLM (hos o ho), hout⟩

/-- A stream that the yard reads at a level of its own leaves nothing waiting. -/
theorem Reads.of_run {L : Level} {ts seq : List Token}
    (h : ∀ out ps, ts.foldlM step ⟨out, ps⟩ = .ok ⟨seq.reverse ++ out, ps⟩) : Reads L ts seq :=
  fun out ps _ => ⟨_, [], h out ps, by simp, rfl⟩

/-- At the level of apostrophes nothing is left waiting. -/
theorem Reads.run {L : Level} {ts seq : List Token} (hL : Operator.not.precedence < L.floor)
    (h : Reads L ts seq) (out : List Token) (ps : List Pending) :
    ts.foldlM step ⟨out, ps⟩ = .ok ⟨seq.reverse ++ out, ps⟩ := by
  have hconn (c : Connective) : c.precedence < Operator.not.precedence :=
    Operator.precedence_conn_lt_not c
  obtain ⟨out', os, hrun, hos, hout⟩ := h out ps fun c hc => by have := hconn c; omega
  obtain rfl : os = [] := by
    refine List.eq_nil_iff_forall_not_mem.2 fun o ho => ?_
    have hle := hos o ho
    cases o with
    | not => omega
    | conn c => have := hconn c; simp only [Operator.precedence] at *; omega
  rw [hrun]
  exact congrArg (fun out => Except.ok (Yard.mk out ps)) hout

/-- **A connective between its operands**: it lets out what the left one left, and nothing of what
was there before. -/
theorem Reads.join {c : Connective} {ts us a b : List Token} (hl : Reads (.conn c) ts a)
    (hr : Reads (.under c) us b) :
    Reads (.conn c) (ts ++ .plain (.conn c) :: us) (a ++ b ++ [.plain (.conn c)]) := by
  intro out ps hps
  obtain ⟨out₁, os₁, hrun₁, hos₁, hout₁⟩ := hl out ps hps
  have hstep : step ⟨out₁, os₁.map .op ++ ps⟩ (.plain (.conn c)) =
      .ok ⟨a.reverse ++ out, .op (.conn c) :: ps⟩ := by
    rw [step, release_append (hps c (Nat.le_refl _)) fun o ho => by
      simpa [yieldsTo_conn] using hos₁ o ho, hout₁]
  have hsettled : ∀ d : Connective, (Level.under c).floor ≤ d.precedence →
      Settled (Operator.yieldsTo · (.conn d)) (.op (.conn c) :: ps) := by
    intro d hd
    refine settled_op ?_ ps
    rw [Level.floor_under] at hd
    rw [yieldsTo_conn]
    exact decide_eq_false (Nat.not_le.2 hd)
  obtain ⟨out₂, os₂, hrun₂, hos₂, hout₂⟩ := hr (a.reverse ++ out) _ hsettled
  refine ⟨out₂, os₂ ++ [.conn c], ?_, ?_, ?_⟩
  · rw [List.foldlM_append, hrun₁]
    simp only [bind, Except.bind, List.foldlM_cons, hstep, hrun₂, List.map_append,
      List.append_assoc, List.map_cons, List.map_nil, List.cons_append, List.nil_append]
  · intro o ho
    rcases List.mem_append.1 ho with ho | ho
    · have := hos₂ o ho
      rw [Level.floor_under] at this
      simp only [Level.floor]
      omega
    · obtain rfl := List.mem_singleton.1 ho
      exact Nat.le_refl _
  · simp [hout₂]

/-- **Negation in front** waits for its operand. -/
theorem Reads.not {ts a : List Token} (h : Reads .un ts a) :
    Reads .un (.op .not true :: ts) (a ++ [.plain .not]) := by
  intro out ps _
  have hstep : step ⟨out, ps⟩ (.op .not true) = .ok ⟨out, .op .not :: ps⟩ := by
    rw [step, settled_not ps out]
  obtain ⟨out', os, hrun, hos, hout⟩ := h out (.op .not :: ps) fun c hc =>
    absurd hc (Nat.not_le.2 (Operator.precedence_conn_lt_not c))
  refine ⟨out', os ++ [.not], ?_, ?_, ?_⟩
  · simp only [bind, Except.bind, List.foldlM_cons, hstep, hrun, List.map_append,
      List.append_assoc, List.map_cons, List.map_nil, List.cons_append, List.nil_append]
  · intro o ho
    rcases List.mem_append.1 ho with ho | ho
    · exact hos o ho
    · obtain rfl := List.mem_singleton.1 ho
      exact Nat.le_refl _
  · simp [hout]

/-- **An apostrophe** goes out at once, right behind its value. -/
theorem Reads.prime {ts a : List Token} (h : Reads .post ts a) :
    Reads .post (ts ++ [.mark .prime]) (a ++ [.plain .not]) := by
  refine .of_run fun out ps => ?_
  rw [List.foldlM_append, h.run (Nat.lt_succ_self _)]
  simp [bind, Except.bind, step, pure, Except.pure]

/-- **Parentheses** are a barrier that the operators between them do not cross. -/
theorem Reads.parens {ts a : List Token} (h : Reads (.conn .or) ts a) :
    Reads .prim (.mark .lparen :: (ts ++ [.mark .rparen])) a := by
  refine .of_run fun out ps => ?_
  obtain ⟨out', os, hrun, -, hout⟩ := h out (.barrier :: ps) fun _ _ => settled_barrier _ ps
  have hclose : step ⟨out', os.map .op ++ .barrier :: ps⟩ (.mark .rparen) =
      .ok ⟨a.reverse ++ out, ps⟩ := by
    rw [step, release_append (settled_barrier _ ps) fun _ _ => rfl, hout]
  have hopen : step ⟨out, ps⟩ (.mark .lparen) = .ok ⟨out, .barrier :: ps⟩ := rfl
  simp only [List.foldlM_cons, List.foldlM_append, List.foldlM_nil, bind, Except.bind, hopen, hrun,
    hclose, pure, Except.pure]

end Postfix.Yard

open Postfix

/-- **The yard reads every derivable stream** as the postorder of its tree. -/
theorem Derives.reads {L : Level} {ts : List Token} {e : Expr} (h : Derives L ts e) :
    Yard.Reads L ts e.postorder := by
  induction h with
  | join _ _ ihl ihr => exact ihl.join ihr
  | under _ ih => exact ih.mono (by simp)
  | not _ ih => exact ih.not
  | post _ ih => exact ih.mono (Nat.le_succ _)
  | prime _ ih => exact ih.prime
  | prim _ ih => exact ih
  | var n => exact .of_run fun _ _ => rfl
  | const b => exact .of_run fun _ _ => rfl
  | parens _ ih => exact ih.parens

/-- What the yard reads from the start on comes out at the end. -/
theorem Postfix.Yard.Reads.ofInfix {L : Level} {ts seq : List Token} (h : Yard.Reads L ts seq) :
    Postfix.ofInfix ts = .ok seq := by
  obtain ⟨out, os, hrun, -, hout⟩ := h [] [] fun _ _ => Yard.settled_nil _
  have hfinish : Yard.finish ⟨out, os.map .op ++ []⟩ = .ok seq := by
    rw [Yard.finish, Yard.release_append (Yard.settled_nil _) fun _ _ => rfl, hout]
    simp
  rw [Postfix.ofInfix, hrun]
  exact hfinish

/-- A derivable stream comes out in the postorder of its tree. -/
theorem Derives.ofInfix {ts : List Token} {e : Expr} (h : Derives (.conn .or) ts e) :
    Postfix.ofInfix ts = .ok e.postorder :=
  h.reads.ofInfix

/-- The variables of a stream are those of its tree, in the same order. -/
theorem Derives.names_eq {L : Level} {ts : List Token} {e : Expr} (h : Derives L ts e) :
    names ts = e.occurrences := by
  induction h with
  | @join c ts us _ _ _ _ ihl ihr =>
    have hbehind : names (.plain (.conn c) :: us) = names us := rfl
    rw [names_append, hbehind, ihl, ihr, Expr.occurrences]
  | under _ ih | not _ ih | post _ ih | prim _ ih => exact ih
  | prime _ ih => rw [names_append, ih]; exact List.append_nil _
  | var _ | const _ => rfl
  | @parens ts e _ ih =>
    have hinside : names (.mark .lparen :: (ts ++ [.mark .rparen])) =
        names (ts ++ [.mark .rparen]) := rfl
    rw [hinside, names_append, ih]
    exact List.append_nil _

/-- **A derivable stream has the postorder of its tree as its postfix sequence**, with every
negation plain, and that sequence denotes the tree. -/
theorem ofInfix_of_derives {ts : List Token} {e : Expr} (h : Derives (.conn .or) ts e) :
    ofInfix ts = .ok e.postorder ∧ toExpr e.postorder = .ok e :=
  ⟨h.ofInfix, toExpr_postorder e⟩

/-- Chains of all connectives, with negation on either side of a value: `!A'+B*(1^C)^B+C`. -/
theorem ofInfix_of_derives_mixed :
    let ts : List Token :=
      [.op .not true, .var "A", .mark .prime, .plain (.conn .or), .var "B", .plain (.conn .and),
        .mark .lparen, .const true, .plain (.conn .xor), .var "C", .mark .rparen,
        .plain (.conn .xor), .var "B", .plain (.conn .or), .var "C"]
    let product : Expr := .bin .and (.var "B") (.bin .xor (.const true) (.var "C"))
    let e : Expr :=
      .bin .or (.bin .or (.not (.not (.var "A"))) (.bin .xor product (.var "B"))) (.var "C")
    Derives (.conn .or) ts e ∧ ofInfix ts = .ok e.postorder ∧ toExpr e.postorder = .ok e := by
  have hvar (n : String) : Derives .un [.var n] (.var n) := .post (.prim (.var n))
  have hone : Derives .un [.const true] (.const true) := .post (.prim (.const true))
  have hnot : Derives .un [.op .not true, .var "A", .mark .prime] (.not (.not (.var "A"))) :=
    .not (.post (.prime (.prim (.var "A"))))
  have hxor := Derives.join (hone.conn_of_un .xor) ((hvar "C").under_of_un .xor)
  have hproduct := Derives.join ((hvar "B").conn_of_un .and) (.post (.prim (.parens (.under hxor))))
  have hchain : Derives (.under .or) _ _ :=
    .join (.under hproduct) ((hvar "B").under_of_un .xor)
  have h := Derives.join (.join (hnot.conn_of_un .or) hchain) ((hvar "C").under_of_un .or)
  exact ⟨h, ofInfix_of_derives h⟩

end TruthTable
