import TruthTable.Expr

/-!
# Room — how far calls may stand within one another

A function that goes down a tree calls itself for each operand, and one that grows a tree calls
itself for each partner.  Calls that stand within one another take up room, and there is only so
much of it.  How much there is, and how much of it a function takes up at a tree, is the
interpreter's affair: it is given from outside, with nothing assumed of it.

* `Descent` — the functions that go down a tree.
* `Room.allows` — where a descent goes through.
-/

namespace TruthTable

/-- The **functions that go down a tree**, by what they come back with. -/
inductive Descent where
  | latex
  | text
  | python
  | outline
  /-- The nodes in preorder. -/
  | nodes
  /-- The names of the variables. -/
  | names
  | graph
  deriving DecidableEq, Repr

/-- **Room for calls** within one another. -/
structure Room where
  /-- How many calls may stand within one another. -/
  calls : Nat
  /-- How many of them a descent through a tree takes. -/
  need : Descent → Expr → Nat
  /-- How many of them drawing a leaf at random takes; no other draw takes more. -/
  leafDraw : Nat

namespace Room

/-- **The descent through the tree goes through.** -/
def allows (room : Room) (d : Descent) (e : Expr) : Bool := room.need d e ≤ room.calls

/-- Room for a thousand calls, of which a descent takes one for each level.  None gets by with
fewer, so where there is no room here there is none with this limit. -/
def standard : Room := { calls := 1000, need := fun _ e => e.depth, leafDraw := 1 }

end Room

end TruthTable
