import TruthTable.Expr

/-!
# Postfix — operand sequences with their operators behind them

A postfix sequence lists operands and operators in the order of evaluation and needs no
parentheses.  It is a list of tokens in which no mark has a meaning.

* `Postfix.ofInfix` — an infix stream in postfix order: operators wait in a stack until what binds
  tighter is out, and parentheses are barriers in it.
* `Postfix.eval` — the value of a sequence, on a stack of truth values.
* `Postfix.toExpr` — the tree of a sequence, on a stack of trees.
* `Postfix.names` — the variables of a sequence.
-/

namespace TruthTable.Postfix

/-! ## From infix order -/

/-- What **waits** while an infix stream is read: an operator, or an open parenthesis. -/
inductive Pending where
  | barrier
  | op (o : Operator)
  deriving DecidableEq, Repr

/-- The state of the reordering. -/
structure Yard where
  /-- What is out already, latest first. -/
  output : List Token
  /-- What waits, latest first. -/
  pending : List Pending
  deriving DecidableEq, Repr

namespace Yard

/-- Lets out the waiting operators that satisfy `p`, as far as the next barrier. -/
def release (p : Operator → Bool) (output : List Token) : List Pending → Yard
  | .op o :: ps =>
    if p o then release p (.plain o :: output) ps else ⟨output, .op o :: ps⟩
  | ps => ⟨output, ps⟩

/-- **One token of the infix stream.**  A value goes straight out, and so does the apostrophe,
which follows its value.  An operator waits; a closing parenthesis lets out all that waits above
its barrier. -/
def step (y : Yard) : Token → Except ExprError Yard
  | .var n => .ok { y with output := .var n :: y.output }
  | .const b => .ok { y with output := .const b :: y.output }
  | .mark .prime => .ok { y with output := .plain .not :: y.output }
  | .op o _ =>
    let y' := release (Operator.yieldsTo · o) y.output y.pending
    .ok { y' with pending := .op o :: y'.pending }
  | .mark .lparen => .ok { y with pending := .barrier :: y.pending }
  | .mark .rparen =>
    let y' := release (fun _ => true) y.output y.pending
    match y'.pending with
    | .barrier :: ps => .ok { y' with pending := ps }
    | _ => .error .mismatchedParens

/-- The end of the stream: all that waits goes out, and no parenthesis may be open. -/
def finish (y : Yard) : Except ExprError (List Token) :=
  match release (fun _ => true) y.output y.pending with
  | ⟨output, []⟩ => .ok output.reverse
  | _ => .error .mismatchedParens

end Yard

/-- **An infix stream in postfix order.**  Only unbalanced parentheses are refused here; an operator
without operands is found when the sequence is evaluated. -/
def ofInfix (tokens : List Token) : Except ExprError (List Token) := do
  let y ← tokens.foldlM Yard.step ⟨[], []⟩
  y.finish

/-! ## Evaluation -/

/-- One token on a stack of truth values. -/
def evalStep (v : Valuation) (stack : List Bool) : Token → Except ExprError (List Bool)
  | .const b => .ok (b :: stack)
  | .var n => match v n with
    | some b => .ok (b :: stack)
    | none => .error (.undefinedVar n)
  | .op .not _ => match stack with
    | a :: st => .ok ((!a) :: st)
    | [] => .error (.malformed (.missingOperand .not))
  | .op (.conn c) _ => match stack with
    | b :: a :: st => .ok (c.apply a b :: st)
    | _ => .error (.malformed (.missingOperand (.conn c)))
  | .mark m => .error (.malformed (.structural m))

/-- **The value of a postfix sequence** under a valuation. -/
def eval (tokens : List Token) (v : Valuation) : Except ExprError Bool := do
  match ← tokens.foldlM (evalStep v) [] with
  | [b] => .ok b
  | _ => .error (.malformed .leftover)

/-! ## Trees -/

/-- One token on a stack of trees. -/
def treeStep (stack : List Expr) : Token → Except ExprError (List Expr)
  | .const b => .ok (.const b :: stack)
  | .var n => .ok (.var n :: stack)
  | .op .not _ => match stack with
    | e :: st => .ok (.not e :: st)
    | [] => .error (.malformed (.missingOperand .not))
  | .op (.conn c) _ => match stack with
    | r :: l :: st => .ok (.bin c l r :: st)
    | _ => .error (.malformed (.missingOperand (.conn c)))
  | .mark m => .error (.malformed (.structural m))

/-- **The tree of a postfix sequence.** -/
def toExpr (tokens : List Token) : Except ExprError Expr := do
  match ← tokens.foldlM treeStep [] with
  | [e] => .ok e
  | _ => .error (.malformed .leftover)

/-- The names of the variables, one for each place they stand at. -/
def names (tokens : List Token) : List String := tokens.filterMap Token.name?

/-! ## Small facts -/

@[simp] theorem names_append (ts us : List Token) : names (ts ++ us) = names ts ++ names us := by
  simp [names]

/-- The sequence of a tree holds the variables of the tree, in its order. -/
theorem names_postorder : ∀ e : Expr, names e.postorder = e.occurrences
  | .var _ => rfl
  | .const _ => rfl
  | .not e => by
    rw [Expr.postorder, names_append, names_postorder e]
    simp [names, Token.name?, Expr.occurrences]
  | .bin _ l r => by
    rw [Expr.postorder, names_append, names_append, names_postorder l, names_postorder r]
    simp [names, Token.name?, Expr.occurrences]

/-- Replaying the sequence of a tree leaves the tree on top of the stack. -/
theorem foldlM_treeStep_postorder : ∀ (e : Expr) (stack : List Expr),
    e.postorder.foldlM treeStep stack = .ok (e :: stack)
  | .var _, _ => rfl
  | .const _, _ => rfl
  | .not e, stack => by
    rw [Expr.postorder, List.foldlM_append, foldlM_treeStep_postorder e stack]
    rfl
  | .bin c l r, stack => by
    rw [Expr.postorder, List.foldlM_append, List.foldlM_append, foldlM_treeStep_postorder l stack]
    simp only [bind, Except.bind]
    rw [foldlM_treeStep_postorder r (l :: stack)]
    rfl

/-- **Every tree is denoted by its postfix sequence.** -/
theorem toExpr_postorder (e : Expr) : toExpr e.postorder = .ok e := by
  rw [toExpr, foldlM_treeStep_postorder e []]
  rfl

end TruthTable.Postfix
