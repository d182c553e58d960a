import TruthTable.Error
import TruthTable.Increasing

/-!
# Expr — expression trees

An expression is a variable, a constant, a negation, or two expressions under a connective.

* `Expr.eval` — the value under a valuation, or the first undefined variable.
* `Expr.subterms` — the nodes in preorder.
* `Expr.depth` — how deep the tree nests.
* `Expr.vars` — the names of the variables, each once.
* `Expr.postorder` — the postfix sequence that denotes the tree.
-/

namespace TruthTable

/-- A **valuation**: a truth value for each variable that has one. -/
abbrev Valuation := String → Option Bool

/-- **The valuation of a mapping** to values of any kind, each of which counts as true or false. -/
def Valuation.ofValues {α : Type} (truth : α → Bool) (values : String → Option α) : Valuation :=
  fun n => (values n).map truth

/-- A **boolean expression**. -/
inductive Expr where
  | var (name : String)
  | const (value : Bool)
  | not (child : Expr)
  | bin (c : Connective) (left right : Expr)
  deriving DecidableEq, Repr

namespace Expr

/-- The operands, left to right. -/
def children : Expr → List Expr
  | var _ | const _ => []
  | not e => [e]
  | bin _ l r => [l, r]

/-- A variable or a constant. -/
def isLeaf : Expr → Bool
  | var _ | const _ => true
  | _ => false

/-- How tightly the outermost operator binds; a leaf binds tightest. -/
def precedence : Expr → Nat
  | var _ | const _ => 5
  | not _ => Operator.not.precedence
  | bin c _ _ => c.precedence

/-- The number of nodes. -/
def size : Expr → Nat
  | var _ | const _ => 1
  | not e => e.size + 1
  | bin _ l r => l.size + r.size + 1

/-- The number of nodes on the longest path down from the root. -/
def depth : Expr → Nat
  | var _ | const _ => 1
  | not e => e.depth + 1
  | bin _ l r => max l.depth r.depth + 1

/-- **The nodes in preorder**: the tree itself, then those of its operands, left to right. -/
def subterms : Expr → List Expr
  | e@(var _) | e@(const _) => [e]
  | e@(not a) => e :: a.subterms
  | e@(bin _ l r) => e :: (l.subterms ++ r.subterms)

/-- The names of the variables, one for each place they stand at, left to right. -/
def occurrences : Expr → List String
  | var n => [n]
  | const _ => []
  | not e => e.occurrences
  | bin _ l r => l.occurrences ++ r.occurrences

/-- **The variables as a set**: those of the operands together, in the order of their code
points. -/
def vars : Expr → List String
  | var n => [n]
  | const _ => []
  | not e => e.vars
  | bin _ l r => Increasing.union l.vars r.vars

/-- **The postfix sequence of the tree**: operands first, then their operator. -/
def postorder : Expr → List Token
  | var n => [.var n]
  | const b => [.const b]
  | not e => e.postorder ++ [.plain .not]
  | bin c l r => l.postorder ++ r.postorder ++ [.plain (.conn c)]

/-- **The value under a valuation.**  Both operands are evaluated, the left one first, so a failure
names the leftmost undefined variable. -/
def eval (v : Valuation) : Expr → Except ExprError Bool
  | var n => match v n with
    | some b => .ok b
    | none => .error (.undefinedVar n)
  | const b => .ok b
  | not e => do
    let b ← e.eval v
    return !b
  | bin c l r => do
    let a ← l.eval v
    let b ← r.eval v
    return c.apply a b

@[simp] theorem length_subterms : ∀ e : Expr, e.subterms.length = e.size
  | var _ | const _ => rfl
  | not e => by simp [subterms, size, length_subterms e]
  | bin _ l r => by simp [subterms, size, length_subterms l, length_subterms r]

@[simp] theorem mem_vars {n : String} : ∀ {e : Expr}, n ∈ e.vars ↔ n ∈ e.occurrences
  | var _ | const _ => Iff.rfl
  | not e => mem_vars (e := e)
  | bin _ l r => by
    rw [vars, Increasing.mem_union, mem_vars, mem_vars, occurrences, List.mem_append]

theorem size_pos (e : Expr) : 0 < e.size := by
  cases e <;> simp [size]

end Expr

end TruthTable
