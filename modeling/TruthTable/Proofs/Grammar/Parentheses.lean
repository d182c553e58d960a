import TruthTable.Proofs.Grammar.Alternation
import TruthTable.Proofs.Grammar.Notation

/-!
# Proofs/Grammar/Parentheses — the parentheses that a tree needs

At each level of the grammar some trees stand only in parentheses, and those are the parentheses of
the printed stream.  A derivation goes up the tree level by level, so it opens at least as many,
whatever else it puts in parentheses and however it writes negations.

A pair can be taken out of any stream: what stood in it goes on from what stood in front, and the
stream stays derivable.  It spells another tree where the pair was needed.

* `Level.opened` — how many parentheses are opened in the printed stream of a tree at a level.
* `Derives.opened_le` — every stream of the tree opens as many.
* `WellFormed.unwrap` — a stream with a matched pair taken out.
-/

namespace TruthTable

/-! ## Parentheses that are needed -/

namespace Level

/-- **At the level the tree stands in parentheses.** -/
def encloses : Level → Expr → Bool
  | conn c, e => e.precedence < c.precedence
  | un, e | post, e => !e.takesPrime
  | prim, e => !e.isLeaf

/-- **How many parentheses are opened** in the printed stream of a tree at the level. -/
def opened (L : Level) (e : Expr) : Nat :=
  (parens (L.encloses e) (e.stream .prime)).count (.mark .lparen)

theorem count_parens_le {a b : Bool} (h : a = true → b = true) (ts : List Token) :
    (parens a ts).count (.mark .lparen) ≤ (parens b ts).count (.mark .lparen) := by
  cases a <;> cases b <;> simp_all [parens]

theorem encloses_under {c : Connective} : ∀ {e : Expr}, (conn c).encloses e = true →
    (under c).encloses e = true
  | .var _, h | .const _, h | .not _, h => by cases c <;> cases h
  | .bin d _ _, h => by cases c <;> cases d <;> first | rfl | cases h

/-- To the right of a connective a tree needs the parentheses that it needs in front of it. -/
theorem opened_conn_le (c : Connective) (e : Expr) : (conn c).opened e ≤ (under c).opened e :=
  count_parens_le encloses_under _

theorem opened_post_le (e : Expr) : post.opened e ≤ prim.opened e :=
  count_parens_le (by cases e <;> simp [encloses, Expr.takesPrime, Expr.isLeaf]) _

/-- Outside of all operands a tree stands by itself. -/
theorem opened_or (e : Expr) : (conn .or).opened e = (e.stream .prime).count (.mark .lparen) := by
  have hbare : (conn .or).encloses e = false := by
    cases e with
    | bin c l r => cases c <;> rfl
    | _ => rfl
  rw [opened, hbare]
  rfl

/-- **A pair around a tree** is one more than the tree needs inside of it. -/
theorem opened_prim_le (e : Expr) : prim.opened e ≤ (conn .or).opened e + 1 := by
  have hpair : (parens true (e.stream .prime)).count (.mark .lparen) = (conn .or).opened e + 1 := by
    simp [parens, opened_or]
  exact hpair ▸ count_parens_le (fun _ => rfl) _

theorem opened_not (e : Expr) : un.opened (.not e) = un.opened e := by
  simp [opened, encloses, parens, Expr.takesPrime, Expr.stream, Negation.write]

theorem opened_bin (c : Connective) (l r : Expr) :
    (conn c).opened (.bin c l r) = (conn c).opened l + (conn c).opened r := by
  have hself : (conn c).encloses (.bin c l r) = false := decide_eq_false (Nat.lt_irrefl _)
  have hne : Token.plain (.conn c) ≠ .mark .lparen := fun h => nomatch h
  rw [opened, hself, parens, if_neg Bool.false_ne_true, Expr.stream_bin, List.count_append,
    List.count_cons_of_ne hne]
  rfl

end Level

variable {L : Level} {ts us ms vs xs ys : List Token} {e : Expr}

/-- **Every stream of a tree opens as many parentheses** as the printed one at its level. -/
theorem Derives.opened_le (h : Derives L ts e) : L.opened e ≤ ts.count (.mark .lparen) := by
  induction h with
  | @join c ts us l r _ _ ihl ihr =>
    have hne : Token.plain (.conn c) ≠ .mark .lparen := fun h => nomatch h
    rw [Level.opened_bin, List.count_append, List.count_cons_of_ne hne]
    exact Nat.add_le_add ihl (Nat.le_trans (Level.opened_conn_le c r) ihr)
  | under _ ih => exact Nat.le_trans (Level.opened_conn_le _ _) ih
  | not _ ih => simpa [Level.opened_not] using ih
  | prime _ ih =>
    rw [List.count_append]
    exact Nat.le_add_right_of_le (Nat.le_trans (Nat.le_of_eq (Level.opened_not _)) ih)
  | post _ ih => exact ih
  | prim _ ih => exact Nat.le_trans (Level.opened_post_le _) ih
  | var _ | const _ => exact Nat.le_refl _
  | @parens ts e _ ih =>
    rw [List.count_cons_self, List.count_append]
    exact Nat.le_trans (Level.opened_prim_le e) (Nat.succ_le_succ (Nat.le_add_right_of_le ih))

/-! ## A pair taken out -/

theorem Alternates.append_congr (h : ∀ closed, Alternates closed xs → Alternates closed ys) :
    ∀ {us : List Token} {closed : Bool}, Alternates closed (us ++ xs) → Alternates closed (us ++ ys)
  | [], closed, hxs => h closed hxs
  | _ :: _, _, ⟨hstart, hxs⟩ => ⟨hstart, append_congr h hxs⟩

theorem Balanced.append_congr (h : ∀ depth, Balanced depth xs → Balanced depth ys) :
    ∀ (us : List Token) (depth : Nat), Balanced depth (us ++ xs) → Balanced depth (us ++ ys)
  | [], depth, hxs => h depth hxs
  | .mark .lparen :: us, depth, hxs => append_congr h us (depth + 1) hxs
  | .mark .rparen :: us, depth + 1, hxs => append_congr h us depth hxs
  | .var _ :: us, depth, hxs | .const _ :: us, depth, hxs | .op _ _ :: us, depth, hxs
  | .mark .prime :: us, depth, hxs => append_congr h us depth hxs

/-- Balanced tokens leave as many parentheses open **as they find**. -/
theorem Balanced.append_iff (depth : Nat) (rest : List Token) : ∀ (ms : List Token) (inner : Nat),
    Balanced inner ms → (Balanced (depth + inner) (ms ++ rest) ↔ Balanced depth rest)
  | [], inner, hms => by
    obtain rfl : inner = 0 := hms
    rfl
  | .mark .lparen :: ms, inner, hms => append_iff depth rest ms (inner + 1) hms
  | .mark .rparen :: ms, inner + 1, hms => append_iff depth rest ms inner hms
  | .var _ :: ms, inner, hms | .const _ :: ms, inner, hms | .op _ _ :: ms, inner, hms
  | .mark .prime :: ms, inner, hms => append_iff depth rest ms inner hms

/-- **A matched pair of parentheses taken out** of a stream leaves a stream. -/
theorem WellFormed.unwrap (h : WellFormed (us ++ .mark .lparen :: (ms ++ .mark .rparen :: vs)))
    (hms : Balanced 0 ms) : WellFormed (us ++ (ms ++ vs)) where
  lexical t ht := by
    refine h.lexical t ?_
    simp only [List.mem_append] at ht
    rcases ht with ht | ht | ht <;> simp [ht]
  alternates := by
    -- A value is missing in front of the pair and inside of it, and complete at its end and behind.
    refine Alternates.append_congr (fun closed hopen => ?_) h.alternates
    obtain ⟨hstart, hinner⟩ := hopen
    obtain rfl : closed = false := Bool.not_eq_true' _ ▸ hstart.symm
    refine Alternates.append_congr (fun closed hclose => ?_) hinner
    obtain ⟨hstart, hvs⟩ := hclose
    obtain rfl : closed = true := Bool.not_eq_false' _ ▸ hstart.symm
    exact hvs
  balanced := by
    refine Balanced.append_congr (fun depth hopen => ?_) us 0 h.balanced
    have hclose : Balanced (depth + 1) (.mark .rparen :: vs) :=
      (Balanced.append_iff (depth + 1) _ ms 0 hms).1 hopen
    exact (Balanced.append_iff depth vs ms 0 hms).2 hclose

/-- A stream goes on **from where its first part ends**. -/
theorem Alternates.of_append : ∀ {us : List Token} {closed : Bool}, Alternates closed (us ++ ts) →
    Alternates ((us.getLast?.map Token.closes).getD closed) ts
  | [], _, h => h
  | u :: us, _, ⟨_, h⟩ => by
    have hrest := of_append h
    rw [List.getLast?_cons]
    cases hlast : us.getLast? <;> simpa [hlast] using hrest

end TruthTable
