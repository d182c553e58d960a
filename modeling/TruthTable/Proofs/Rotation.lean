import Mathlib.Logic.Relation
import TruthTable.Expr.Printer
import TruthTable.Proofs.Evaluation

/-!
# Proofs/Rotation — chains of one connective, nested to the left

A text without parentheses cannot tell `a+(b+c)` from `(a+b)+c`, and the grammar reads it as the
latter.  Turning every chain of one connective to the left makes of a tree the one that its text
spells; nothing of the tree's meaning hangs on it.

* `Expr.Rotates` — one chain is turned by one operand.
* `Expr.leftNest` — the tree with all chains nested to the left.
* `Expr.leftNest_eq_iff` — it is the only such tree that rotations lead to.
* `Expr.truth_leftNest`, `Expr.toText_leftNest`, … — what rotations keep.
-/

namespace TruthTable

theorem Connective.apply_assoc (c : Connective) (x y z : Bool) :
    c.apply (c.apply x y) z = c.apply x (c.apply y z) := by
  cases c <;> cases x <;> cases y <;> cases z <;> rfl

namespace Expr

/-- The connective at the root. -/
def connective? : Expr → Option Connective
  | bin c _ _ => some c
  | _ => none

/-- **Every chain of one connective is nested to the left**: no right operand has the connective
that stands over it. -/
def LeftNested : Expr → Prop
  | var _ | const _ => True
  | not e => e.LeftNested
  | bin c l r => l.LeftNested ∧ r.LeftNested ∧ r.connective? ≠ some c

instance decidableLeftNested : ∀ e : Expr, Decidable e.LeftNested
  | var _ | const _ => isTrue trivial
  | not e => decidableLeftNested e
  | bin c l r =>
    have := decidableLeftNested l
    have := decidableLeftNested r
    inferInstanceAs (Decidable (l.LeftNested ∧ r.LeftNested ∧ r.connective? ≠ some c))

/-- **One rotation to the left**, anywhere in the tree. -/
inductive Rotates : Expr → Expr → Prop
  | here (c : Connective) (x y z : Expr) :
    Rotates (bin c x (bin c y z)) (bin c (bin c x y) z)
  | not {d e} (h : Rotates d e) : Rotates (not d) (not e)
  | left {c d e} (r : Expr) (h : Rotates d e) : Rotates (bin c d r) (bin c e r)
  | right {c d e} (l : Expr) (h : Rotates d e) : Rotates (bin c l d) (bin c l e)

/-- **One more operand in front of a chain** of the connective. -/
def graft (c : Connective) (x : Expr) : Expr → Expr
  | bin d l r => if d = c then bin c (graft c x l) r else bin c x (bin d l r)
  | e => bin c x e

/-- **The tree with every chain nested to the left.** -/
def leftNest : Expr → Expr
  | var n => var n
  | const b => const b
  | not e => not e.leftNest
  | bin c l r => graft c l.leftNest r.leftNest

variable {c : Connective}

@[simp] theorem graft_self (c : Connective) (x l r : Expr) :
    graft c x (bin c l r) = bin c (graft c x l) r := if_pos rfl

/-- What is no chain of the connective is its last operand. -/
theorem graft_of_ne (x : Expr) : ∀ {e : Expr}, e.connective? ≠ some c → graft c x e = bin c x e
  | var _, _ | const _, _ | not _, _ => rfl
  | bin _ _ _, h => if_neg fun hd => h (congrArg some hd)

/-- **Induction along a chain** of the connective, from its first operand on; what is no chain is
the first operand alone. -/
@[elab_as_elim]
theorem chain_induction (c : Connective) {P : Expr → Prop}
    (first : ∀ e, e.connective? ≠ some c → P e) (snoc : ∀ l r, P l → P (bin c l r)) : ∀ e, P e
  | var n => first (var n) (by simp [connective?])
  | const b => first (const b) (by simp [connective?])
  | not e => first (not e) (by simp [connective?])
  | bin d l r => by
    by_cases hd : d = c
    · subst hd
      exact snoc l r (chain_induction d first snoc l)
    · exact first _ fun h => hd (Option.some.inj h)

/-- **A chain behind a chain** is one chain. -/
theorem graft_graft (c : Connective) (x y z : Expr) :
    graft c (graft c x y) z = graft c x (graft c y z) := by
  induction z using chain_induction c with
  | first z h => rw [graft_of_ne _ h, graft_of_ne _ h, graft_self]
  | snoc l r ih => rw [graft_self, graft_self, graft_self, ih]

/-! ## The only tree that rotations lead to -/

open Relation

/-- A rotation does not change what rotations lead to. -/
theorem Rotates.leftNest_eq {d e : Expr} (h : Rotates d e) : d.leftNest = e.leftNest := by
  induction h with
  | here c x y z => exact (graft_graft c _ _ _).symm
  | not _ ih => rw [leftNest, leftNest, ih]
  | left _ _ ih | right _ _ ih => rw [leftNest, leftNest, ih]

theorem leftNest_eq_of_leftNested : ∀ {e : Expr}, e.LeftNested → e.leftNest = e
  | var _, _ | const _, _ => rfl
  | not e, h => by rw [leftNest, leftNest_eq_of_leftNested (e := e) h]
  | bin c l r, ⟨hl, hr, hne⟩ => by
    rw [leftNest, leftNest_eq_of_leftNested hl, leftNest_eq_of_leftNested hr, graft_of_ne l hne]

theorem leftNested_graft {x e : Expr} (hx : x.LeftNested) (he : e.LeftNested) :
    (graft c x e).LeftNested := by
  induction e using chain_induction c with
  | first e h => rw [graft_of_ne x h]; exact ⟨hx, he, h⟩
  | snoc l r ih => rw [graft_self]; exact ⟨ih he.1, he.2⟩

/-- **Every chain is nested to the left.** -/
theorem leftNested_leftNest : ∀ e : Expr, e.leftNest.LeftNested
  | var _ | const _ => trivial
  | not e => leftNested_leftNest e
  | bin _ l r => leftNested_graft (leftNested_leftNest l) (leftNested_leftNest r)

/-- Rotations bring an operand to the front of a chain. -/
theorem reflTransGen_graft (c : Connective) (x e : Expr) :
    ReflTransGen Rotates (bin c x e) (graft c x e) := by
  induction e using chain_induction c with
  | first e h => rw [graft_of_ne x h]
  | snoc l r ih =>
    rw [graft_self]
    exact .head (.here c x l r) (ih.lift (bin c · r) fun _ _ => .left r)

/-- **Rotations lead to the tree nested to the left.** -/
theorem reflTransGen_leftNest : ∀ e : Expr, ReflTransGen Rotates e e.leftNest
  | var _ | const _ => .refl
  | not e => (reflTransGen_leftNest e).lift not fun _ _ => .not
  | bin c l r =>
    have hl := (reflTransGen_leftNest l).lift (bin c · r) fun _ _ => .left r
    have hr := (reflTransGen_leftNest r).lift (bin c l.leftNest) fun _ _ => .right _
    (hl.trans hr).trans (reflTransGen_graft c _ _)

theorem leftNest_eq_of_reflTransGen {d e : Expr} (h : ReflTransGen Rotates d e) :
    d.leftNest = e.leftNest := by
  induction h with
  | refl => rfl
  | tail _ hstep ih => exact ih.trans hstep.leftNest_eq

/-- **It is the only tree** with every chain nested to the left that rotations lead to. -/
theorem leftNest_eq_iff {d e : Expr} :
    d.leftNest = e ↔ ReflTransGen Rotates d e ∧ e.LeftNested := by
  constructor
  · rintro rfl
    exact ⟨reflTransGen_leftNest d, leftNested_leftNest d⟩
  · rintro ⟨hrotates, he⟩
    rw [leftNest_eq_of_reflTransGen hrotates, leftNest_eq_of_leftNested he]

theorem leftNest_eq_self_iff {e : Expr} : e.leftNest = e ↔ e.LeftNested :=
  ⟨fun h => h ▸ leftNested_leftNest e, leftNest_eq_of_leftNested⟩

/-! ## What rotations keep -/

theorem occurrences_graft (c : Connective) (x e : Expr) :
    (graft c x e).occurrences = x.occurrences ++ e.occurrences := by
  induction e using chain_induction c with
  | first e h => rw [graft_of_ne x h, occurrences]
  | snoc l r ih => rw [graft_self, occurrences, occurrences, ih, List.append_assoc]

/-- The variables stay in their order. -/
@[simp] theorem occurrences_leftNest : ∀ e : Expr, e.leftNest.occurrences = e.occurrences
  | var _ | const _ => rfl
  | not e => occurrences_leftNest e
  | bin c l r => by
    rw [leftNest, occurrences_graft, occurrences_leftNest l, occurrences_leftNest r, occurrences]

theorem truth_graft (w : String → Bool) (c : Connective) (x e : Expr) :
    (graft c x e).truth w = c.apply (x.truth w) (e.truth w) := by
  induction e using chain_induction c with
  | first e h => rw [graft_of_ne x h, truth]
  | snoc l r ih => rw [graft_self, truth, truth, ih, c.apply_assoc]

/-- **The truth function stays the same.** -/
@[simp] theorem truth_leftNest (w : String → Bool) : ∀ e : Expr, e.leftNest.truth w = e.truth w
  | var _ | const _ => rfl
  | not e => congrArg (!·) (truth_leftNest w e)
  | bin c l r => by rw [leftNest, truth_graft, truth_leftNest w l, truth_leftNest w r, truth]

/-- **The value stays the same**, refusals included. -/
theorem eval_leftNest (v : Valuation) (e : Expr) : e.leftNest.eval v = e.eval v := by
  rw [eval_eq_guard, eval_eq_guard, occurrences_leftNest, truth_leftNest]

@[simp] theorem connective?_graft (c : Connective) (x e : Expr) :
    (graft c x e).connective? = some c := by
  induction e using chain_induction c with
  | first e h => rw [graft_of_ne x h, connective?]
  | snoc l r _ => rw [graft_self, connective?]

@[simp] theorem connective?_leftNest : ∀ e : Expr, e.leftNest.connective? = e.connective?
  | var _ | const _ | not _ => rfl
  | bin _ _ _ => connective?_graft _ _ _

/-! ## Written forms -/

@[simp] theorem precedence_graft (c : Connective) (x e : Expr) :
    (graft c x e).precedence = c.precedence := by
  induction e using chain_induction c with
  | first e h => rw [graft_of_ne x h, precedence]
  | snoc l r _ => rw [graft_self, precedence]

@[simp] theorem precedence_leftNest : ∀ e : Expr, e.leftNest.precedence = e.precedence
  | var _ | const _ | not _ => rfl
  | bin _ _ _ => precedence_graft _ _ _

theorem takesPrime_eq (e : Expr) : e.takesPrime = e.connective?.isNone := by
  cases e <;> rfl

@[simp] theorem takesPrime_leftNest (e : Expr) : e.leftNest.takesPrime = e.takesPrime := by
  rw [takesPrime_eq, takesPrime_eq, connective?_leftNest]

/-- What binds tight enough is written without parentheses. -/
theorem toTextIn_of_le {outer : Int} {e : Expr} (h : outer ≤ e.precedence) :
    e.toTextIn outer = e.toText := by
  rw [toTextIn, decide_eq_false (Int.not_lt.2 h)]
  rfl

theorem toText_bin (c : Connective) (l r : Expr) :
    (bin c l r).toText = l.toTextIn c.precedence ++ c.sign ++ r.toTextIn c.precedence := by
  simp only [toText, toTextIn, Int.ofNat_lt]

theorem toText_graft (c : Connective) (x e : Expr) :
    (graft c x e).toText = (bin c x e).toText := by
  induction e using chain_induction c with
  | first e h => rw [graft_of_ne x h]
  | snoc l r ih =>
    have hfront : (graft c x l).toTextIn c.precedence = (graft c x l).toText :=
      toTextIn_of_le (by simp)
    have hchain : (bin c l r).toTextIn c.precedence = (bin c l r).toText :=
      toTextIn_of_le (Int.le_refl _)
    rw [graft_self, toText_bin, hfront, ih, toText_bin, toText_bin c x (bin c l r), hchain,
      toText_bin]
    simp only [String.append_assoc]

/-- **The text stays the same.** -/
theorem toText_leftNest : ∀ e : Expr, e.leftNest.toText = e.toText
  | var _ | const _ => rfl
  | not e => by
    rw [leftNest, toText, toText, takesPrime_leftNest, toText_leftNest e]
  | bin c l r => by
    rw [leftNest, toText_graft, toText, toText, precedence_leftNest, precedence_leftNest,
      toText_leftNest l, toText_leftNest r]

theorem toLatex_graft (c : Connective) (x e : Expr) (outer : Int) :
    (graft c x e).toLatex outer = (bin c x e).toLatex outer := by
  induction e using chain_induction c generalizing outer with
  | first e h => rw [graft_of_ne x h]
  | snoc l r ih =>
    rw [graft_self]
    simp only [toLatex, ih, Int.lt_irrefl, if_false, String.append_assoc]

/-- **The typeset form stays the same.** -/
theorem toLatex_leftNest : ∀ (e : Expr) (outer : Int), e.leftNest.toLatex outer = e.toLatex outer
  | var _, _ | const _, _ => rfl
  | not e, _ => by rw [leftNest, toLatex, toLatex, toLatex_leftNest e]
  | bin c l r, outer => by
    rw [leftNest, toLatex_graft, toLatex, toLatex, toLatex_leftNest l, toLatex_leftNest r]

end Expr

end TruthTable
