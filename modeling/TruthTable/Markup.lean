import TruthTable.Expr.Printer
import TruthTable.Room

/-!
# Markup — choosing the written form of an expression

A markup is chosen by name.  A form is refused when no markup has the name, and when there is no
room for going down the tree; a front end then shows nothing.

* `Expr.render` — the form of a named markup, or why there is none.
* `Expr.renderOrEmpty` — the same with nothing in place of a refusal.
* `Expr.evalBounded` — evaluation with a bound on depth.
-/

namespace TruthTable

/-- The **markups** that an expression can be shown in. -/
inductive Markup where
  | latex
  | text
  | python
  deriving DecidableEq, Repr

namespace Markup

/-- The name a markup is chosen by. -/
def name : Markup → String
  | latex => "latex"
  | text => "text"
  | python => "python"

/-- All markups, in the order in which messages list them. -/
def all : List Markup := [latex, text, python]

/-- The names of all markups. -/
def names : List String := all.map name

/-- The markup of a name. -/
def ofName? (s : String) : Option Markup := all.find? (·.name = s)

@[simp] theorem ofName?_name (m : Markup) : ofName? m.name = some m := by
  cases m <;> decide

theorem mem_names_iff {s : String} : s ∈ names ↔ ∃ m : Markup, m.name = s := by
  constructor
  · intro h
    obtain ⟨m, _, hm⟩ := List.mem_map.1 h
    exact ⟨m, hm⟩
  · rintro ⟨m, rfl⟩
    cases m <;> decide

end Markup

/-- Why an expression has no written form. -/
inductive RenderError where
  | tooDeep
  | unknownMarkup (name : String)
  deriving DecidableEq, Repr

namespace RenderError

/-- The wording of the refusal; a tree that is too deep has none. -/
def message : RenderError → String
  | tooDeep => ""
  | unknownMarkup name => "unknown markup: " ++ name

/-- The kind of the refusal, as the log names it. -/
def kind : RenderError → String
  | tooDeep => "RecursionError"
  | unknownMarkup _ => "ValueError"

end RenderError

namespace Expr

/-- **What a descent comes back with**, unless there is no room for it. -/
def bounded {α : Type} (room : Room) (d : Descent) (e : Expr) (form : Expr → α) :
    Except RenderError α :=
  if room.allows d e then .ok (form e) else .error .tooDeep

/-- A descent that comes back has gone **through the whole tree**. -/
theorem bounded_eq_ok_iff {α : Type} {room : Room} {d : Descent} {e : Expr} {form : Expr → α}
    {a : α} : e.bounded room d form = .ok a ↔ room.allows d e = true ∧ form e = a := by
  rw [bounded]
  split <;> simp_all

/-- The form of the expression in a markup. -/
def renderIn (room : Room) (e : Expr) : Markup → Except RenderError String
  | .latex => e.bounded room .latex (toLatex 0)
  | .text => e.bounded room .text toText
  | .python => e.bounded room .python toPython

/-- **The form of the expression in the markup of that name.** -/
def render (room : Room) (e : Expr) (markup : String) : Except RenderError String :=
  match Markup.ofName? markup with
  | some m => e.renderIn room m
  | none => .error (.unknownMarkup markup)

/-- The form of the expression, empty where it is refused. -/
def renderOrEmpty (room : Room) (e : Expr) (markup : String) : String :=
  (e.render room markup).toOption.getD ""

/-- Why evaluation by recursion gives no value. -/
inductive EvalError where
  | expr (e : ExprError)
  | tooDeep
  deriving DecidableEq, Repr

/-- **Evaluation that descends at most `fuel` nodes.**  Operands are walked left to right, and the
failure that is met first is the one reported. -/
def evalBounded (v : Valuation) : (fuel : Nat) → Expr → Except EvalError Bool
  | 0, _ => .error .tooDeep
  | _ + 1, var n => match v n with
    | some b => .ok b
    | none => .error (.expr (.undefinedVar n))
  | _ + 1, const b => .ok b
  | fuel + 1, not e => do
    let b ← evalBounded v fuel e
    return !b
  | fuel + 1, bin c l r => do
    let a ← evalBounded v fuel l
    let b ← evalBounded v fuel r
    return c.apply a b

/-- Within the bound the evaluation is the plain one. -/
theorem evalBounded_eq (v : Valuation) : ∀ {fuel : Nat} {e : Expr}, e.depth ≤ fuel →
    evalBounded v fuel e = (e.eval v).mapError .expr
  | 0, e, h => by cases e <;> simp [depth] at h
  | _ + 1, var n, _ => by
    simp only [evalBounded, eval]
    cases v n <;> rfl
  | _ + 1, const b, _ => rfl
  | fuel + 1, not e, h => by
    simp only [depth] at h
    have he : e.depth ≤ fuel := by omega
    simp only [evalBounded, eval, evalBounded_eq v he]
    cases e.eval v <;> rfl
  | fuel + 1, bin c l r, h => by
    simp only [depth] at h
    have hl : l.depth ≤ fuel := by omega
    have hr : r.depth ≤ fuel := by omega
    simp only [evalBounded, eval, evalBounded_eq v hl, evalBounded_eq v hr]
    cases l.eval v <;> cases r.eval v <;> rfl

end Expr

end TruthTable
