import TruthTable.Room

/-!
# Expr/Random — expressions grown from random draws

An expression is grown around a random leaf: again and again it is negated, or joined with a smaller
expression that is grown in the same way, until it is about as large as asked.  The draws are given
as a row of numbers, so that the same row grows the same expression.

A smaller expression is grown by a call within the call, and its nodes are counted by going down it;
where there is no room for either, growing breaks off.

* `Expr.pick` — a draw cut down to a number of choices.
* `Expr.grow` — the growth from a given expression on.
* `Expr.random` — the expression of a size and the number of draws it took, or what it lacked.
-/

namespace TruthTable.Expr

/-- An endless **row of draws**. -/
abbrev Draws := Nat → Int

/-- **The `k`-th draw as one of `choices`**, counted from zero. -/
def pick (draws : Draws) (k choices : Nat) : Nat := (draws k % (choices : Int)).toNat

theorem pick_lt (draws : Draws) (k : Nat) {choices : Nat} (h : 0 < choices) :
    pick draws k choices < choices := by
  have h₁ := Int.emod_nonneg (draws k) (b := (choices : Int)) (by omega)
  have h₂ := Int.emod_lt_of_pos (draws k) (b := (choices : Int)) (by omega)
  unfold pick
  omega

/-- **What a growth lacks.** -/
inductive GrowthError where
  /-- A variable is wanted, and there is no name for one. -/
  | noName
  /-- There is no room for a call. -/
  | noRoom
  deriving DecidableEq, Repr

/-- A leaf: a constant one time in ten, one of the variables otherwise. -/
def randomLeaf (names : List String) (draws : Draws) (k : Nat) :
    Except GrowthError (Expr × Nat) :=
  if pick draws k 10 = 0 then .ok (const (pick draws (k + 1) 2 = 1), k + 2)
  else match names[pick draws (k + 1) names.length]? with
    | some n => .ok (var n, k + 2)
    | none => .error .noName

/-- The size of what is joined next to an expression of `nodes + 1` nodes: at most half of what is
missing, and at least one. -/
def partnerSize (draws : Draws) (k size nodes : Nat) : Nat :=
  1 + pick draws k (max 1 ((size - (nodes + 1)) / 2))

theorem partnerSize_lt (draws : Draws) (k : Nat) {size nodes : Nat} (h : nodes + 1 < size) :
    partnerSize draws k size nodes < size := by
  have h₁ : 0 < max 1 ((size - (nodes + 1)) / 2) := by omega
  have h₂ := pick_lt draws k h₁
  unfold partnerSize
  omega

/-- The expression joined with a partner, on the side that the draw gives. -/
def joinAt (draws : Draws) (k : Nat) (c : Connective) (e partner : Expr) : Expr :=
  if pick draws k 2 = 1 then bin c e partner else bin c partner e

mutual

/-- A random expression of a size, **from the `k`-th draw on**, where so many calls may still stand
within one another.  The answer is the expression and the number of the next draw. -/
def randomFrom (room : Room) (names : List String) (draws : Draws) (calls size k : Nat) :
    Except GrowthError (Expr × Nat) :=
  if calls < room.leafDraw then .error .noRoom
  else do
    let (leaf, k₁) ← randomLeaf names draws k
    grow room names draws calls size 0 leaf k₁
termination_by (size, size + 1)

/-- **Grows an expression** of `nodes + 1` nodes up to a size, from the `k`-th draw on. -/
def grow (room : Room) (names : List String) (draws : Draws) (calls size nodes : Nat) (e : Expr)
    (k : Nat) : Except GrowthError (Expr × Nat) :=
  if _ : nodes + 1 < size then
    let join (c : Connective) : Except GrowthError (Expr × Nat) :=
      match calls with
      | 0 => .error .noRoom
      | inner + 1 => do
        let (partner, k₁) ←
          randomFrom room names draws inner (partnerSize draws (k + 1) size nodes) (k + 2)
        if calls < room.need .nodes partner then .error .noRoom
        else
          grow room names draws calls size (nodes + partner.size + 1)
            (joinAt draws k₁ c e partner) (k₁ + 1)
    match pick draws k 4 with
    | 0 => grow room names draws calls size (nodes + 1) (not e) (k + 1)
    | 1 => join .and
    | 2 => join .or
    | _ => join .xor
  else .ok (e, k)
termination_by (size, size - nodes)
decreasing_by
  · exact Prod.Lex.left _ _ (partnerSize_lt draws (k + 1) ‹nodes + 1 < size›)
  · exact Prod.Lex.right _ (by omega)
  · exact Prod.Lex.right _ (by omega)

end

/-- **A random expression of about the size**, and the number of draws it took.  Without room for
more than one node it is a leaf. -/
def random (room : Room) (names : List String) (draws : Draws) (size : Int) :
    Except GrowthError (Expr × Nat) :=
  randomFrom room names draws room.calls size.toNat 0

end TruthTable.Expr
