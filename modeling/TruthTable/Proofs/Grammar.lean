import TruthTable.Expr

/-!
# Proofs/Grammar — the infix streams of the language and the trees they spell

The grammar has one level for each binary connective, one for negation in front, one for
apostrophes, and one for what stands by itself:

    or  ::= or '+' xor | xor         un   ::= '!' un | post
    xor ::= xor '^' and | and        post ::= post ''' | prim
    and ::= and '*' un | un          prim ::= variable | constant | '(' or ')'

* `Derives` — a stream spells a tree at a level.
* `Derivable.snoc` — a derivable stream goes on with any connective and one more operand, whatever
  the connectives before: the levels are found by precedence, not by position.
-/

namespace TruthTable

/-- A **level of the grammar**. -/
inductive Level where
  /-- Chains of a connective, and all that binds tighter. -/
  | conn (c : Connective)
  /-- Values with negations in front. -/
  | un
  /-- Values with apostrophes behind. -/
  | post
  /-- Variables, constants and parentheses. -/
  | prim
  deriving DecidableEq, Repr

namespace Level

/-- The level of the **right operand** of a connective. -/
def under : Connective → Level
  | .or => conn .xor
  | .xor => conn .and
  | .and => un

/-- How tightly an operator has to bind at least to stand at the level outside of parentheses. -/
def floor : Level → Nat
  | conn c => c.precedence
  | un => Operator.not.precedence
  | post | prim => Operator.not.precedence + 1

@[simp] theorem floor_conn (c : Connective) : (conn c).floor = c.precedence := rfl

/-- What stands to the right of a connective binds tighter than it. -/
@[simp] theorem floor_under (c : Connective) : (under c).floor = c.precedence + 1 := by
  cases c <;> rfl

end Level

/-- **The stream spells the tree at the level.** -/
inductive Derives : Level → List Token → Expr → Prop
  | join {c ts us l r} (hl : Derives (.conn c) ts l) (hr : Derives (.under c) us r) :
    Derives (.conn c) (ts ++ .plain (.conn c) :: us) (.bin c l r)
  | under {c ts e} (h : Derives (.under c) ts e) : Derives (.conn c) ts e
  | not {ts e} (h : Derives .un ts e) : Derives .un (.op .not true :: ts) (.not e)
  | post {ts e} (h : Derives .post ts e) : Derives .un ts e
  | prime {ts e} (h : Derives .post ts e) : Derives .post (ts ++ [.mark .prime]) (.not e)
  | prim {ts e} (h : Derives .prim ts e) : Derives .post ts e
  | var (n : String) : Derives .prim [.var n] (.var n)
  | const (b : Bool) : Derives .prim [.const b] (.const b)
  | parens {ts e} (h : Derives (.conn .or) ts e) :
    Derives .prim (.mark .lparen :: (ts ++ [.mark .rparen])) e

/-- A value with negations in front stands at every level of a connective. -/
theorem Derives.conn_of_un {ts : List Token} {e : Expr} (h : Derives .un ts e) (c : Connective) :
    Derives (.conn c) ts e := by
  have hand : Derives (.conn .and) ts e := under h
  have hxor : Derives (.conn .xor) ts e := under hand
  cases c with
  | and => exact hand
  | xor => exact hxor
  | or => exact under hxor

theorem Derives.under_of_un {ts : List Token} {e : Expr} (h : Derives .un ts e) :
    ∀ c, Derives (.under c) ts e
  | .and => h
  | .xor => h.conn_of_un .and
  | .or => h.conn_of_un .xor

/-- **The stream is derivable at the level.** -/
def Derivable (L : Level) (ts : List Token) : Prop := ∃ e, Derives L ts e

namespace Derivable

variable {c : Connective} {ts us : List Token}

theorem under (h : Derivable (.under c) ts) : Derivable (.conn c) ts :=
  let ⟨_, h⟩ := h
  ⟨_, .under h⟩

theorem join (hl : Derivable (.conn c) ts) (hr : Derivable (.under c) us) :
    Derivable (.conn c) (ts ++ .plain (.conn c) :: us) :=
  let ⟨_, hl⟩ := hl
  let ⟨_, hr⟩ := hr
  ⟨_, .join hl hr⟩

theorem not (h : Derivable .un ts) : Derivable .un (.op .not true :: ts) :=
  let ⟨_, h⟩ := h
  ⟨_, .not h⟩

theorem post (h : Derivable .post ts) : Derivable .un ts :=
  let ⟨_, h⟩ := h
  ⟨_, .post h⟩

theorem prime (h : Derivable .post ts) : Derivable .post (ts ++ [.mark .prime]) :=
  let ⟨_, h⟩ := h
  ⟨_, .prime h⟩

theorem var (n : String) : Derivable .post [.var n] := ⟨_, .prim (.var n)⟩

theorem const (b : Bool) : Derivable .post [.const b] := ⟨_, .prim (.const b)⟩

theorem parens (h : Derivable (.conn .or) ts) :
    Derivable .post (.mark .lparen :: (ts ++ [.mark .rparen])) :=
  let ⟨_, h⟩ := h
  ⟨_, .prim (.parens h)⟩

/-! ## One operand more -/

/-- The chain of a connective grows by one operand. -/
theorem snoc_self (h : Derivable (.conn c) ts) (hu : Derivable .un us) :
    Derivable (.conn c) (ts ++ .plain (.conn c) :: us) :=
  let ⟨_, hu⟩ := hu
  join h ⟨_, hu.under_of_un c⟩

/-- What may follow the right operands of a connective may follow its chains: it goes to the last
operand. -/
theorem append_of_under (ih : ∀ ts, Derivable (.under c) ts → Derivable (.under c) (ts ++ us))
    (h : Derivable (.conn c) ts) : Derivable (.conn c) (ts ++ us) := by
  obtain ⟨e, h⟩ := h
  cases h with
  | join hl hr =>
    rw [List.append_assoc, List.cons_append]
    exact join ⟨_, hl⟩ (ih _ ⟨_, hr⟩)
  | under h => exact under (ih _ ⟨_, h⟩)

/-- **A derivable stream goes on with any connective and one more operand.** -/
theorem snoc (h : Derivable (.conn .or) ts) (hu : Derivable .un us) :
    ∀ c, Derivable (.conn .or) (ts ++ .plain (.conn c) :: us)
  | .or => h.snoc_self hu
  | .xor => h.append_of_under fun _ h => h.snoc_self hu
  | .and => h.append_of_under fun _ h => h.append_of_under fun _ h => h.snoc_self hu

end Derivable

end TruthTable
