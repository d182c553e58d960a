import TruthTable.Proofs.Grammar.Alternation
import TruthTable.Proofs.Grammar.Notation

/-!
# Proofs/Grammar/Words — the grammar of expressions with operators as words

Where operators are words they bind in another order than in the input language: `^` binds tighter
than `not`, and `not` tighter than `and`.  These are the levels of Python's expressions, those left
out whose operators do not occur:

    or  ::= or 'or' and | and          xor  ::= xor '^' prim | prim
    and ::= and 'and' not | not        prim ::= name | 'True' | 'False' | '(' or ')'
    not ::= 'not' not | xor

* `Words.Derives` — a stream spells a tree at a level.
* `Expr.bracketed` — the stream of a tree with every compound operand in parentheses.
* `Words.derives_bracketed_iff` — it spells the tree at the level of its root, and no other tree.
-/

namespace TruthTable

namespace Words

/-- The level of the **right operand** of a connective. -/
def under : Connective → Level
  | .or => .conn .and
  | .and => .un
  | .xor => .prim

/-- **The stream spells the tree at the level**, with operators as words. -/
inductive Derives : Level → List Token → Expr → Prop
  | join {c ts us l r} (hl : Derives (.conn c) ts l) (hr : Derives (under c) us r) :
    Derives (.conn c) (ts ++ .plain (.conn c) :: us) (.bin c l r)
  | under {c ts e} (h : Derives (under c) ts e) : Derives (.conn c) ts e
  | not {ts e} (h : Derives .un ts e) : Derives .un (.op .not true :: ts) (.not e)
  | xor {ts e} (h : Derives (.conn .xor) ts e) : Derives .un ts e
  | var (n : String) : Derives .prim [.var n] (.var n)
  | const (b : Bool) : Derives .prim [.const b] (.const b)
  | parens {ts e} (h : Derives (.conn .or) ts e) :
    Derives .prim (.mark .lparen :: (ts ++ [.mark .rparen])) e

variable {L : Level} {ts us xs ys : List Token} {d e : Expr}

theorem Derives.xor_of_prim (h : Derives .prim ts e) : Derives (.conn .xor) ts e := .under h

theorem Derives.and_of_un (h : Derives .un ts e) : Derives (.conn .and) ts e := .under h

theorem Derives.or_of_and (h : Derives (.conn .and) ts e) : Derives (.conn .or) ts e := .under h

theorem Derives.conn_of_prim (h : Derives .prim ts e) : ∀ c, Derives (.conn c) ts e
  | .xor => h.xor_of_prim
  | .and => .and_of_un (.xor h.xor_of_prim)
  | .or => .or_of_and (.and_of_un (.xor h.xor_of_prim))

theorem Derives.under_of_prim (h : Derives .prim ts e) : ∀ c, Derives (Words.under c) ts e
  | .xor => h
  | .and => .xor h.xor_of_prim
  | .or => h.conn_of_prim .and

/-! ## Parentheses -/

/-- **A derived stream leaves as many parentheses open as it finds.** -/
theorem Derives.balanced_append_iff (h : Derives L ts e) : ∀ {depth : Nat} {rest : List Token},
    Balanced depth (ts ++ rest) ↔ Balanced depth rest := by
  induction h with
  | join _ _ ihl ihr =>
    intro depth rest
    rw [List.append_assoc, List.cons_append, ihl]
    exact ihr
  | under _ ih | not _ ih | xor _ ih => exact ih
  | var _ | const _ => exact Iff.rfl
  | parens _ ih =>
    intro depth rest
    rw [List.cons_append, List.append_assoc]
    exact ih.trans Iff.rfl

theorem Derives.balanced (h : Derives L ts e) : Balanced 0 ts := by
  have hnil : Balanced 0 (ts ++ []) := h.balanced_append_iff.2 rfl
  rwa [List.append_nil] at hnil

/-- What closes a parenthesis more than it opens is no beginning of a balanced stream. -/
theorem not_balanced_append (ys : List Token) : ∀ (xs : List Token) (depth : Nat),
    Balanced (depth + 1) xs → ¬ Balanced depth (xs ++ ys)
  | [], _, h => nomatch h
  | .mark .lparen :: xs, depth, h => not_balanced_append ys xs (depth + 1) h
  | .mark .rparen :: _, 0, _ => id
  | .mark .rparen :: xs, depth + 1, h => not_balanced_append ys xs depth h
  | .mark .prime :: xs, depth, h | .var _ :: xs, depth, h | .const _ :: xs, depth, h
  | .op _ _ :: xs, depth, h => by
    simp only [Balanced] at h
    have := not_balanced_append ys xs depth h
    simpa [Balanced] using this

/-- **No operator stands between the parentheses and outside of them.** -/
theorem not_balanced_of_parens {o : Operator} {inFront : Bool} (hts : Balanced 0 ts)
    (h : .mark .lparen :: (ts ++ [.mark .rparen]) = xs ++ .op o inFront :: ys) :
    ¬ Balanced 0 xs := by
  intro hxs
  cases xs with
  | nil => nomatch h
  | cons x xs =>
    obtain ⟨rfl, hrest⟩ := List.cons.inj h
    rcases List.append_eq_append_iff.1 hrest with ⟨a, rfl, ha⟩ | ⟨a, rfl, ha⟩
    · cases a <;> simp at ha
    · exact not_balanced_append a xs 0 hxs hts

end Words

/-! ## Bracketed streams -/

namespace Expr

/-- **The stream of a tree in words**, with every compound operand in parentheses. -/
def bracketed : Expr → List Token
  | var n => [.var n]
  | const b => [.const b]
  | not e => .op .not true :: parens (!e.isLeaf) e.bracketed
  | bin c l r =>
    parens (!l.isLeaf) l.bracketed ++ .plain (.conn c) :: parens (!r.isLeaf) r.bracketed

/-- The stream of an **operand**: one token, or a pair of parentheses. -/
def group (e : Expr) : List Token := parens (!e.isLeaf) e.bracketed

theorem bracketed_not (e : Expr) : (not e).bracketed = .op .not true :: e.group := rfl

theorem bracketed_bin (c : Connective) (l r : Expr) :
    (bin c l r).bracketed = l.group ++ .plain (.conn c) :: r.group := rfl

theorem group_eq : ∀ e : Expr, (∃ n, e = var n ∧ e.group = [.var n]) ∨
    (∃ b, e = const b ∧ e.group = [.const b]) ∨
      e.isLeaf = false ∧ e.group = .mark .lparen :: (e.bracketed ++ [.mark .rparen])
  | var n => .inl ⟨n, rfl, rfl⟩
  | const b => .inr (.inl ⟨b, rfl, rfl⟩)
  | not _ | bin _ _ _ => .inr (.inr ⟨rfl, rfl⟩)

end Expr

namespace Words

open TruthTable.Expr

variable {L : Level} {ts us xs ys : List Token} {d e l r : Expr}

theorem derives_group (h : Derives (.conn .or) e.bracketed e) : Derives .prim e.group e :=
  match e with
  | .var n => .var n
  | .const b => .const b
  | .not _ | .bin _ _ _ => .parens h

/-- **The stream of a tree spells it.** -/
theorem derives_bracketed : ∀ e : Expr, Derives (.conn .or) e.bracketed e
  | .var n => (Derives.var n).conn_of_prim .or
  | .const b => (Derives.const b).conn_of_prim .or
  | .not e =>
    have he : Derives .un e.group e := .xor (derives_group (derives_bracketed e)).xor_of_prim
    he.not.and_of_un.or_of_and
  | .bin c l r =>
    have hl := (derives_group (derives_bracketed l)).conn_of_prim c
    have hr := (derives_group (derives_bracketed r)).under_of_prim c
    have h : Derives (.conn c) (bin c l r).bracketed (bin c l r) := .join hl hr
    match c, h with
    | .or, h => h
    | .and, h => h.or_of_and
    | .xor, h => h.xor.and_of_un.or_of_and

/-- **No operator of an operand stands outside of its parentheses.** -/
theorem not_balanced_of_group {o : Operator} {inFront : Bool}
    (h : e.group = xs ++ .op o inFront :: ys) : ¬ Balanced 0 xs := by
  rcases e.group_eq with ⟨n, -, hgroup⟩ | ⟨b, -, hgroup⟩ | ⟨-, hgroup⟩
  · rw [hgroup] at h
    cases xs <;> simp at h
  · rw [hgroup] at h
    cases xs <;> simp at h
  · exact not_balanced_of_parens (derives_bracketed e).balanced (hgroup.symm.trans h)

/-- **Two operands are parted at the connective between them** only. -/
theorem eq_of_group_append {c : Connective} {o : Operator} {inFront : Bool}
    (h : xs ++ .op o inFront :: ys = l.group ++ .plain (.conn c) :: r.group)
    (hxs : Balanced 0 xs) :
    xs = l.group ∧ Token.op o inFront = .plain (.conn c) ∧ ys = r.group := by
  rcases List.append_eq_append_iff.1 h with ⟨a, ha, hrest⟩ | ⟨a, rfl, hrest⟩
  · cases a with
    | nil =>
      obtain ⟨hop, hys⟩ := List.cons.inj hrest
      exact ⟨by simpa using ha.symm, hop, hys⟩
    | cons t a =>
      obtain ⟨rfl, -⟩ := List.cons.inj hrest
      exact absurd hxs (not_balanced_of_group ha)
  · cases a with
    | nil =>
      obtain ⟨hop, hys⟩ := List.cons.inj hrest
      exact ⟨List.append_nil _, hop.symm, hys.symm⟩
    | cons t a =>
      obtain ⟨rfl, hr⟩ := List.cons.inj hrest
      have hl := derives_group (derives_bracketed l)
      have hbehind : Balanced 0 (.plain (.conn c) :: a) := hl.balanced_append_iff.1 hxs
      have hbefore : ¬ Balanced 0 a := not_balanced_of_group hr
      exact absurd hbehind hbefore

/-! ## No other tree -/

/-- **The stream spells no tree but one**, at any level. -/
def Unambiguous (ts : List Token) (e : Expr) : Prop := ∀ L d, Derives L ts d → d = e

/-- An operand is one token, or what its parentheses hold. -/
theorem unambiguous_group (he : e.isLeaf = false → Unambiguous e.bracketed e) :
    Unambiguous e.group e := by
  intro L d h
  generalize hts : e.group = ts at h
  induction h with
  | join hl _ _ _ => exact absurd hl.balanced (not_balanced_of_group hts)
  | under _ ih | xor _ ih => exact ih hts
  | not _ _ =>
    have hnil : Balanced 0 [] := rfl
    exact absurd hnil (not_balanced_of_group hts)
  | var n =>
    rcases e.group_eq with ⟨m, rfl, hgroup⟩ | ⟨b, -, hgroup⟩ | ⟨-, hgroup⟩ <;> simp_all
  | const b =>
    rcases e.group_eq with ⟨m, -, hgroup⟩ | ⟨a, rfl, hgroup⟩ | ⟨-, hgroup⟩ <;> simp_all
  | @parens ts d h _ =>
    rcases e.group_eq with ⟨m, -, hgroup⟩ | ⟨b, -, hgroup⟩ | ⟨hleaf, hgroup⟩
    · simp_all
    · simp_all
    · obtain rfl : e.bracketed = ts := by simpa [hgroup] using hts
      exact he hleaf _ _ h

/-- A negation is spelled as the negation of its operand. -/
theorem Unambiguous.not (he : Unambiguous e.group e) :
    Unambiguous (Expr.not e).bracketed (.not e) := by
  intro L d h
  rw [bracketed_not] at h
  generalize hts : Token.op .not true :: e.group = ts at h
  induction h with
  | @join c xs ys l r hl _ _ _ =>
    cases xs with
    | nil => nomatch hts
    | cons x xs =>
      obtain ⟨rfl, hrest⟩ := List.cons.inj hts
      have hxs : Balanced 0 xs := hl.balanced
      have hsplit : ¬ Balanced 0 xs := not_balanced_of_group hrest
      exact absurd hxs hsplit
  | under _ ih | xor _ ih => exact ih hts
  | not h _ =>
    obtain ⟨-, rfl⟩ := List.cons.inj hts
    exact congrArg Expr.not (he _ _ h)
  | var n | const b | parens _ _ => nomatch hts

/-- Two operands under a connective are spelled as such. -/
theorem Unambiguous.bin (hl : Unambiguous l.group l) (hr : Unambiguous r.group r)
    (c : Connective) : Unambiguous (Expr.bin c l r).bracketed (.bin c l r) := by
  intro L d h
  rw [bracketed_bin] at h
  generalize hts : l.group ++ Token.plain (.conn c) :: r.group = ts at h
  induction h with
  | join hl' hr' _ _ =>
    obtain ⟨rfl, hop, rfl⟩ := eq_of_group_append hts.symm hl'.balanced
    obtain rfl := Operator.conn.inj (Token.op.inj hop).1
    rw [hl _ _ hl', hr _ _ hr']
  | under _ ih | xor _ ih => exact ih hts
  | @not ts e _ _ =>
    have hsplit : [] ++ Token.op .not true :: ts = l.group ++ .plain (.conn c) :: r.group :=
      hts.symm
    obtain ⟨-, hop, -⟩ := eq_of_group_append hsplit rfl
    nomatch hop
  | var _ | const _ =>
    have hmem : Token.plain (.conn c) ∈ l.group ++ .plain (.conn c) :: r.group :=
      List.mem_append_right _ List.mem_cons_self
    rw [hts] at hmem
    nomatch List.mem_singleton.1 hmem
  | parens h _ =>
    have hgroup : Balanced 0 l.group := (derives_group (derives_bracketed l)).balanced
    exact absurd hgroup (not_balanced_of_parens h.balanced hts.symm)

/-- **The stream of a tree spells no other tree.** -/
theorem unambiguous_bracketed : ∀ e : Expr, Unambiguous e.bracketed e
  | .var n => unambiguous_group (e := .var n) fun h => nomatch h
  | .const b => unambiguous_group (e := .const b) fun h => nomatch h
  | .not e => .not (unambiguous_group fun _ => unambiguous_bracketed e)
  | .bin c l r =>
    have hl := unambiguous_group fun _ => unambiguous_bracketed l
    have hr := unambiguous_group fun _ => unambiguous_bracketed r
    .bin hl hr c

/-- **The stream of a tree spells it**, with no regrouping at all. -/
theorem derives_bracketed_iff : Derives (.conn .or) e.bracketed d ↔ d = e :=
  ⟨unambiguous_bracketed e _ d, fun h => h ▸ derives_bracketed d⟩

end Words

end TruthTable
