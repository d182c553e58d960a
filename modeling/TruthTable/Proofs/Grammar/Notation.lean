import TruthTable.Proofs.Grammar
import TruthTable.Proofs.Rotation

/-!
# Proofs/Grammar/Notation — the streams that trees are written as

A tree is written with parentheses around the operands that bind looser than the connective over
them.  Two notations for negation are in use: an apostrophe behind its operand, and a bar, which is
read as a negation in front of parentheses.  In either one the stream spells the tree with its
chains nested to the left.

* `Expr.stream` — the stream of a tree, in a notation for negation.
* `Expr.derives_stream` — it spells the tree, its chains nested to the left.
-/

namespace TruthTable

/-! ## Levels -/

/-- Chains of a connective stand where looser ones take their operands. -/
theorem Derives.under_of_lt {c d : Connective} {ts : List Token} {e : Expr}
    (h : Derives (.conn d) ts e) (hlt : c.precedence < d.precedence) :
    Derives (.under c) ts e := by
  match c, d, hlt with
  | .or, .xor, _ | .xor, .and, _ => exact h
  | .or, .and, _ => exact .under (c := .xor) h

theorem Derives.un_of_prim {ts : List Token} {e : Expr} (h : Derives .prim ts e) :
    Derives .un ts e :=
  .post (.prim h)

/-! ## Notations -/

/-- A stream in parentheses where `needed`. -/
def parens (needed : Bool) (ts : List Token) : List Token :=
  if needed then .mark .lparen :: (ts ++ [.mark .rparen]) else ts

/-- The **notations for negation**. -/
inductive Negation where
  /-- An apostrophe behind the operand. -/
  | prime
  /-- A bar over the operand, which groups it. -/
  | bar
  deriving DecidableEq, Repr

namespace Negation

/-- The negation of an operand; `simple` is set where the apostrophe needs no parentheses. -/
def write : Negation → (simple : Bool) → List Token → List Token
  | prime, simple, ts => parens (!simple) ts ++ [.mark .prime]
  | bar, _, ts => .op .not true :: parens true ts

/-- The level of negations. -/
def level : Negation → Level
  | prime => .post
  | bar => .un

variable {ν : Negation} {ts : List Token} {e : Expr}

theorem derives_of_prim (h : Derives .prim ts e) : ∀ ν : Negation, Derives ν.level ts e
  | prime => .prim h
  | bar => h.un_of_prim

theorem derives_un : ∀ {ν : Negation}, Derives ν.level ts e → Derives .un ts e
  | prime, h => .post h
  | bar, h => h

/-- **A negation is written at its level.** -/
theorem derives_write {simple : Bool} (h : Derives (.conn .or) ts e)
    (hsimple : simple = true → Derives ν.level ts e) :
    Derives ν.level (ν.write simple ts) (.not e) := by
  cases ν with
  | bar => exact .not (.un_of_prim (.parens h))
  | prime =>
    cases simple with
    | true => exact .prime (hsimple rfl)
    | false => exact .prime (.prim (.parens h))

end Negation

namespace Expr

/-- **The stream of a tree.**  An operand stands in parentheses exactly when it binds looser than
the connective over it. -/
def stream (ν : Negation) : Expr → List Token
  | var n => [.var n]
  | const b => [.const b]
  | not e => ν.write e.takesPrime (e.stream ν)
  | bin c l r =>
    parens (l.precedence < c.precedence) (l.stream ν) ++ .plain (.conn c) ::
      parens (r.precedence < c.precedence) (r.stream ν)

/-- The level that the stream of a tree stands at. -/
def level (ν : Negation) : Expr → Level
  | var _ | const _ => .prim
  | not _ => ν.level
  | bin c _ _ => .conn c

variable {ν : Negation} {c : Connective} {ts : List Token} {d e : Expr}

theorem derives_un_of_level : ∀ {e : Expr}, e.connective? = none → Derives (e.level ν) ts d →
    Derives .un ts d
  | var _, _, h | const _, _, h => h.un_of_prim
  | not _, _, h => Negation.derives_un h

/-- What an apostrophe follows without parentheses is of the level of negations. -/
theorem derives_of_takesPrime : ∀ {e : Expr}, e.takesPrime = true → Derives (e.level ν) ts d →
    Derives ν.level ts d
  | var _, _, h | const _, _, h => Negation.derives_of_prim h ν
  | not _, _, h => h

theorem derives_or : ∀ {e : Expr}, Derives (e.level ν) ts d → Derives (.conn .or) ts d
  | var _, h | const _, h => h.un_of_prim.conn_of_un .or
  | not _, h => (Negation.derives_un h).conn_of_un .or
  | bin .or _ _, h => h
  | bin .xor _ _, h => .under h
  | bin .and _ _, h => .under (.under (c := .xor) h)

/-- The stream of an operand of the connective. -/
def operand (ν : Negation) (c : Connective) (e : Expr) : List Token :=
  parens (e.precedence < c.precedence) (e.stream ν)

theorem operand_of_le (h : c.precedence ≤ e.precedence) : operand ν c e = e.stream ν := by
  rw [operand, parens, if_neg (by simpa using h)]

theorem operand_of_lt (h : e.precedence < c.precedence) :
    operand ν c e = .mark .lparen :: (e.stream ν ++ [.mark .rparen]) := by
  rw [operand, parens, if_pos (decide_eq_true h)]

theorem stream_bin (ν : Negation) (c : Connective) (l r : Expr) :
    (bin c l r).stream ν = operand ν c l ++ .plain (.conn c) :: operand ν c r := rfl

/-- Nothing but a connective binds looser than a connective. -/
theorem precedence_le_of_connective? (c : Connective) : ∀ {e : Expr}, e.connective? = none →
    c.precedence ≤ e.precedence
  | var _, _ | const _, _ => Nat.le_succ_of_le (Nat.le_of_lt (Operator.precedence_conn_lt_not c))
  | not _, _ => Nat.le_of_lt (Operator.precedence_conn_lt_not c)

/-- **An operand that is no chain of the connective** may stand to the right of it. -/
theorem derives_under : ∀ {e : Expr}, e.connective? ≠ some c →
    Derives (e.level ν) (e.stream ν) d → Derives (.under c) (operand ν c e) d
  | bin a l r, hne, h => by
    have hac : c.precedence ≠ a.precedence := fun hac =>
      hne (congrArg some (Connective.precedence_injective hac.symm))
    rcases Nat.lt_or_ge (bin a l r).precedence c.precedence with hlt | hle
    · rw [operand_of_lt hlt]
      exact (Derives.un_of_prim (.parens (derives_or h))).under_of_un c
    · rw [operand_of_le hle]
      exact h.under_of_lt (Nat.lt_of_le_of_ne hle hac)
  | var _, _, h | const _, _, h | not _, _, h => by
    rw [operand_of_le (precedence_le_of_connective? c rfl)]
    exact (derives_un_of_level rfl h).under_of_un c

/-- Any operand may stand in front of the connective. -/
theorem derives_conn (c : Connective) (h : Derives (e.level ν) (e.stream ν) d) :
    Derives (.conn c) (operand ν c e) d := by
  by_cases hchain : e.connective? = some c
  · cases e with
    | bin a l r =>
      obtain rfl := Option.some.inj hchain
      rw [operand_of_le (Nat.le_refl _)]
      exact h
    | _ => nomatch hchain
  · exact .under (derives_under hchain h)

/-- **The stream of the tree goes on from a chain**: behind a chain of a connective, the operands of
the tree's own chain are operands of the longer one. -/
def Continues (ν : Negation) (e : Expr) : Prop :=
  ∀ (c : Connective) (ts : List Token) (d : Expr), Derives (.conn c) ts d →
    Derives (.conn c) (ts ++ .plain (.conn c) :: operand ν c e) (graft c d e.leftNest)

/-- What is no chain of the connective is one operand more. -/
theorem derives_graft (hne : e.connective? ≠ some c)
    (h : Derives (e.level ν) (e.stream ν) e.leftNest) (hd : Derives (.conn c) ts d) :
    Derives (.conn c) (ts ++ .plain (.conn c) :: operand ν c e) (graft c d e.leftNest) := by
  rw [graft_of_ne d (by rwa [connective?_leftNest])]
  exact .join hd (derives_under hne h)

theorem continues_of_connective? (hnone : e.connective? = none)
    (h : Derives (e.level ν) (e.stream ν) e.leftNest) : Continues ν e :=
  fun _ _ _ hd => derives_graft (by simp [hnone]) h hd

/-- **The stream of a tree spells it**, its chains nested to the left, and goes on from a chain.
Only together the two can be carried up the tree: a right operand may be a chain of the connective
over it. -/
theorem derives_stream_and_continues (ν : Negation) : ∀ e : Expr,
    Derives (e.level ν) (e.stream ν) e.leftNest ∧ Continues ν e
  | var n => ⟨.var n, continues_of_connective? rfl (.var n)⟩
  | const b => ⟨.const b, continues_of_connective? rfl (.const b)⟩
  | not e => by
    obtain ⟨he, -⟩ := derives_stream_and_continues ν e
    have h : Derives ν.level ((not e).stream ν) (not e).leftNest :=
      Negation.derives_write (derives_or he) fun hprime => derives_of_takesPrime hprime he
    exact ⟨h, continues_of_connective? rfl h⟩
  | bin c l r => by
    obtain ⟨hl, hlcont⟩ := derives_stream_and_continues ν l
    obtain ⟨-, hrcont⟩ := derives_stream_and_continues ν r
    have h : Derives (.conn c) ((bin c l r).stream ν) (bin c l r).leftNest :=
      hrcont c _ _ (derives_conn c hl)
    refine ⟨h, fun a ts d hd => ?_⟩
    by_cases hac : (bin c l r).connective? = some a
    · obtain rfl := Option.some.inj hac
      have hboth := hrcont c _ _ (hlcont c _ _ hd)
      rw [operand_of_le (Nat.le_refl _), stream_bin, leftNest, ← graft_graft]
      rwa [List.append_assoc, List.cons_append] at hboth
    · exact derives_graft hac h hd

/-- **The stream of a tree spells the tree with its chains nested to the left.** -/
theorem derives_stream (ν : Negation) (e : Expr) : Derives (.conn .or) (e.stream ν) e.leftNest :=
  derives_or (derives_stream_and_continues ν e).1

end Expr

end TruthTable
