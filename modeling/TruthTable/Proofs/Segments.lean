import Mathlib.Data.List.Sort
import Mathlib.Data.List.TakeWhile
import TruthTable.Proofs.Places

/-!
# Proofs/Segments — what waits between two tokens of any stream

The open parentheses cut what waits into segments, and an operator comes to wait in the uppermost.
Before it does, it lets out what binds at least as tight, so in a segment the operators bind tighter
from bottom to top: no connective stands there twice, and the negations, which let nothing out, are
on top.  A segment goes out as a whole and from the top, so from the tightest operator to the
loosest.  Nothing of this asks for a well-formed stream.

* `Operator.Above` — which operator may wait above which.
* `Postfix.stack` — what waits, by its segments.
* `Yard.Segmented` — the state between two tokens; `Segmented.step` and `Segmented.run` say that
  every token leaves it so.
* `segmented_between_tokens` — the states that a stream passes through.
-/

namespace TruthTable

/-! ## One operator above another -/

namespace Operator

/-- The operator may wait **above** another one: it binds tighter, or both are negations. -/
def Above (o below : Operator) : Prop :=
  below.precedence < o.precedence ∨ o = not ∧ below = not

variable {o p q : Operator}

theorem Above.le (h : o.Above p) : p.precedence ≤ o.precedence := by
  rcases h with h | ⟨rfl, rfl⟩
  · exact Nat.le_of_lt h
  · exact Nat.le_refl _

theorem Above.trans (h : o.Above p) (h' : p.Above q) : o.Above q := by
  rcases h with h | ⟨rfl, rfl⟩
  · exact .inl (Nat.lt_of_le_of_lt h'.le h)
  · exact h'

/-- Only what binds less tight may have a connective above it. -/
theorem above_conn_iff {c : Connective} : (conn c).Above p ↔ p.precedence < c.precedence :=
  or_iff_left fun h => nomatch h.1

/-- An operator may wait above **what does not yield** to it. -/
theorem above_of_yieldsTo : ∀ {o p : Operator}, p.yieldsTo o = false → o.Above p
  | not, not, _ => .inr ⟨rfl, rfl⟩
  | not, conn c, _ => .inl (precedence_conn_lt_not c)
  | conn _, _, h => above_conn_iff.2 (Nat.not_le.1 (of_decide_eq_false h))

/-- In an ordered segment an operator may wait **above all that it does not let out**. -/
theorem above_of_mem_dropWhile : ∀ {s : List Operator}, s.Pairwise Above →
    ∀ p ∈ s.dropWhile (·.yieldsTo o), o.Above p
  | q :: s, hs, p, hp => by
    obtain ⟨hq, hs⟩ := List.pairwise_cons.1 hs
    rw [List.dropWhile_cons] at hp
    split at hp
    next => exact above_of_mem_dropWhile hs p hp
    next hyields =>
      have hoq : o.Above q := above_of_yieldsTo (Bool.eq_false_iff.2 hyields)
      rcases List.mem_cons.1 hp with rfl | hp
      · exact hoq
      · exact hoq.trans (hq p hp)

/-! ## Ordered segments -/

/-- Connectives that bind tighter and tighter are **some of the three**, in their order. -/
theorem sublist_of_pairwise {cs : List Connective}
    (h : cs.Pairwise fun c d => c.precedence < d.precedence) : cs.Sublist [.or, .xor, .and] := by
  have hnodup : cs.Nodup := h.imp fun hlt heq => Nat.ne_of_lt hlt (congrArg _ heq)
  have hall : ∀ c ∈ cs, c ∈ [Connective.or, .xor, .and] := by
    rintro (_ | _ | _) - <;> decide
  have : Std.Antisymm fun c d : Connective => c.precedence < d.precedence :=
    ⟨fun _ _ h h' => (Nat.lt_asymm h h').elim⟩
  exact List.sublist_of_subperm_of_pairwise (List.subperm_of_subset hnodup hall) h (by decide)

/-- No negation stands below a connective. -/
theorem exists_eq_append : ∀ {s : List Operator}, s.Pairwise Above →
    ∃ (n : Nat) (cs : List Connective), s = List.replicate n not ++ cs.map conn
  | [], _ => ⟨0, [], rfl⟩
  | not :: s, hs => by
    obtain ⟨n, cs, rfl⟩ := exists_eq_append (List.pairwise_cons.1 hs).2
    exact ⟨n + 1, cs, rfl⟩
  | conn c :: s, hs => by
    obtain ⟨hc, hs⟩ := List.pairwise_cons.1 hs
    obtain ⟨_ | n, cs, rfl⟩ := exists_eq_append hs
    · exact ⟨0, c :: cs, rfl⟩
    · have hlt := above_conn_iff.1 (hc not List.mem_cons_self)
      exact absurd (precedence_conn_lt_not c) (Nat.lt_asymm hlt)

/-- **An ordered segment from bottom to top**: some of the connectives, each once and the looser
ones lower, and then negations. -/
theorem exists_reverse_eq {s : List Operator} (hs : s.Pairwise Above) :
    ∃ (cs : List Connective) (n : Nat), cs.Sublist [.or, .xor, .and] ∧
      s.reverse = cs.map conn ++ List.replicate n not := by
  obtain ⟨n, cs, rfl⟩ := exists_eq_append hs
  have hcs : (cs.map conn).Pairwise Above := (List.pairwise_append.1 hs).2.1
  have hlt : cs.reverse.Pairwise fun c d => c.precedence < d.precedence :=
    List.pairwise_reverse.2 ((List.pairwise_map.1 hcs).imp above_conn_iff.1)
  refine ⟨cs.reverse, n, sublist_of_pairwise hlt, ?_⟩
  rw [List.reverse_append, List.reverse_replicate, List.map_reverse]

end Operator

namespace Postfix

/-! ## Segments -/

/-- **What waits, by its segments**: the operators above all barriers, and the segments that have a
barrier on top, the uppermost first. -/
def stack (top : List Operator) (lower : List (List Operator)) : List Pending :=
  top.map .op ++ lower.flatMap fun s => .barrier :: s.map .op

/-- There is a barrier for **each segment below the uppermost**. -/
theorem count_barrier_stack : ∀ (top : List Operator) (lower : List (List Operator)),
    (stack top lower).count .barrier = lower.length
  | [], [] => rfl
  | [], s :: lower =>
    List.count_cons_self.trans (congrArg Nat.succ (count_barrier_stack s lower))
  | _ :: top, lower => count_barrier_stack top lower

namespace Yard

/-- **What is let out** of a stack is what comes first in its uppermost segment. -/
theorem release_stack (p : Operator → Bool) :
    ∀ (out : List Token) (top : List Operator) (lower : List (List Operator)),
      release p out (stack top lower) =
        ⟨((top.takeWhile p).map Token.plain).reverse ++ out, stack (top.dropWhile p) lower⟩
  | _, [], [] | _, [], _ :: _ => rfl
  | out, o :: top, lower => by
    have hcons : stack (o :: top) lower = .op o :: stack top lower := rfl
    rw [hcons, release, List.takeWhile_cons, List.dropWhile_cons]
    split
    · rw [release_stack, List.map_cons, List.reverse_cons, List.append_assoc,
        List.singleton_append]
    · rfl

/-- Where all may go out, **the uppermost segment** goes out. -/
theorem release_stack_all (out : List Token) (top : List Operator)
    (lower : List (List Operator)) : release (fun _ => true) out (stack top lower) =
      ⟨(top.map Token.plain).reverse ++ out, stack [] lower⟩ := by
  have hall : ∀ o ∈ top, (fun _ : Operator => true) o = true := fun _ _ => rfl
  rw [release_stack, List.takeWhile_eq_self_iff.2 hall, List.dropWhile_eq_nil_iff.2 hall]

/-! ## Between two tokens -/

theorem count_concat (read : List Token) (t : Token) (m : Mark) :
    (read ++ [t]).count (.mark m) = read.count (.mark m) + if t = .mark m then 1 else 0 := by
  rw [List.count_append, List.count_singleton]
  simp only [beq_iff_eq]

/-- **The state between two tokens**: what waits stands in ordered segments, and below the uppermost
there is one for each parenthesis that was opened and not closed again. -/
structure Segmented (read : List Token) (y : Yard) (top : List Operator)
    (lower : List (List Operator)) : Prop where
  pending_eq : y.pending = stack top lower
  above : ∀ s ∈ top :: lower, s.Pairwise Operator.Above
  length_lower : lower.length + read.count (.mark .rparen) = read.count (.mark .lparen)

variable {read : List Token} {y y' : Yard} {top s : List Operator} {lower : List (List Operator)}

theorem segmented_start : Segmented [] ⟨[], []⟩ [] [] :=
  ⟨rfl, List.forall_mem_singleton.2 .nil, rfl⟩

namespace Segmented

/-- A closing parenthesis **lets the uppermost segment out**, and its barrier is gone. -/
theorem step_rparen (h : Segmented read y top (s :: lower)) : y.step (.mark .rparen) =
    .ok ⟨(top.map Token.plain).reverse ++ y.output, stack s lower⟩ := by
  rw [step, h.pending_eq, release_stack_all]
  rfl

theorem step_rparen_nil (h : Segmented read y top []) :
    y.step (.mark .rparen) = .error .mismatchedParens := by
  rw [step, h.pending_eq, release_stack_all]
  rfl

/-- At the end **the last segment goes out**, if no parenthesis is open. -/
theorem finish_eq (h : Segmented read y top []) :
    y.finish = .ok (y.output.reverse ++ top.map Token.plain) := by
  have hreverse : ((top.map Token.plain).reverse ++ y.output).reverse =
      y.output.reverse ++ top.map Token.plain := by
    rw [List.reverse_append, List.reverse_reverse]
  rw [finish, h.pending_eq, release_stack_all, ← hreverse]
  rfl

/-- An operator waits above **what it does not let out**. -/
theorem wait (h : Segmented read y top lower) (o : Operator) (inFront : Bool) {out : List Token} :
    Segmented (read ++ [.op o inFront]) ⟨out, .op o :: stack (top.dropWhile (·.yieldsTo o)) lower⟩
      (o :: top.dropWhile (·.yieldsTo o)) lower := by
  obtain ⟨htop, hlower⟩ := List.forall_mem_cons.1 h.above
  refine ⟨rfl, List.forall_mem_cons.2 ⟨?_, hlower⟩, ?_⟩
  · exact List.pairwise_cons.2 ⟨Operator.above_of_mem_dropWhile htop,
      htop.sublist (List.dropWhile_sublist _)⟩
  · simpa [count_concat] using h.length_lower

/-- **One token more.** -/
theorem step (h : Segmented read y top lower) : ∀ {t : Token}, y.step t = .ok y' →
    ∃ top' lower', Segmented (read ++ [t]) y' top' lower'
  | .var _, hstep | .const _, hstep | .mark .prime, hstep => by
    obtain rfl := Except.ok.inj hstep
    exact ⟨top, lower, h.pending_eq, h.above, by simpa [count_concat] using h.length_lower⟩
  | .op o inFront, hstep => by
    rw [Yard.step, h.pending_eq, release_stack] at hstep
    obtain rfl := Except.ok.inj hstep
    exact ⟨_, _, h.wait o inFront⟩
  | .mark .lparen, hstep => by
    obtain rfl := Except.ok.inj hstep
    refine ⟨[], top :: lower, congrArg (List.cons Pending.barrier) h.pending_eq,
      List.forall_mem_cons.2 ⟨.nil, h.above⟩, ?_⟩
    have hlength := h.length_lower
    rw [count_concat, count_concat, if_neg (by decide), if_pos rfl, List.length_cons]
    omega
  | .mark .rparen, hstep => by
    obtain _ | ⟨s, lower⟩ := lower
    · cases h.step_rparen_nil.symm.trans hstep
    · obtain rfl := Except.ok.inj (h.step_rparen.symm.trans hstep)
      refine ⟨s, lower, rfl, (List.forall_mem_cons.1 h.above).2, ?_⟩
      have hlength := h.length_lower
      rw [List.length_cons] at hlength
      rw [count_concat, count_concat, if_pos rfl, if_neg (by decide)]
      omega

/-- The yard stops only at a parenthesis that closes where **none is open**. -/
theorem eq_rparen_of_step (h : Segmented read y top lower) {e : ExprError} : ∀ {t : Token},
    y.step t = .error e → t = .mark .rparen ∧ lower = []
  | .mark .rparen, hstep => by
    obtain _ | ⟨s, lower⟩ := lower
    · exact ⟨rfl, rfl⟩
    · cases h.step_rparen.symm.trans hstep

/-- **Any number of tokens more.** -/
theorem run : ∀ {ts read : List Token} {y : Yard} {top : List Operator}
    {lower : List (List Operator)}, Segmented read y top lower →
      ts.foldlM Yard.step y = .ok y' → ∃ top' lower', Segmented (read ++ ts) y' top' lower'
  | [], read, y, top, lower, h, hrun => by
    obtain rfl := Except.ok.inj hrun
    exact ⟨_, _, (List.append_nil read).symm ▸ h⟩
  | t :: ts, read, y, top, lower, h, hrun => by
    rw [List.foldlM_cons, bind_eq_ok_iff] at hrun
    obtain ⟨z, hstep, hrun⟩ := hrun
    obtain ⟨top', lower', hz⟩ := h.step hstep
    have hrest := hz.run hrun
    rwa [List.append_assoc] at hrest

end Segmented

/-- **Whatever the yard has read**, what waits is segmented. -/
theorem exists_segmented (h : read.foldlM step ⟨[], []⟩ = .ok y) :
    ∃ top lower, Segmented read y top lower := segmented_start.run h

/-- **Which tokens the yard goes through**: those among which no parenthesis closes where none is
open. -/
theorem exists_run_iff_count {ts : List Token} : (∃ y, ts.foldlM step ⟨[], []⟩ = .ok y) ↔
    ∀ read, read <+: ts → read.count (.mark .rparen) ≤ read.count (.mark .lparen) := by
  constructor
  · rintro ⟨y, hy⟩ read ⟨rest, rfl⟩
    rw [List.foldlM_append, bind_eq_ok_iff] at hy
    obtain ⟨z, hz, -⟩ := hy
    obtain ⟨top, lower, hread⟩ := exists_segmented hz
    exact Nat.le.intro ((Nat.add_comm _ _).trans hread.length_lower)
  · intro hcount
    rcases hrun : ts.foldlM step ⟨[], []⟩ with e | y
    · obtain ⟨read, t, rest, z, rfl, hz, hstep⟩ := foldlM_eq_error_iff.1 hrun
      obtain ⟨top, lower, hread⟩ := exists_segmented hz
      obtain ⟨rfl, rfl⟩ := hread.eq_rparen_of_step hstep
      have hclosed := hcount (read ++ [.mark .rparen])
        ((List.prefix_append_right_inj read).2 (List.cons_prefix_cons.2 ⟨rfl, List.nil_prefix⟩))
      have hopen := hread.length_lower
      rw [count_concat, count_concat, if_pos rfl, if_neg (by decide)] at hclosed
      rw [List.length_nil] at hopen
      omega
    · exact ⟨y, rfl⟩

end Yard

/-- **What waits between two tokens of any stream** stands in segments.  The yard comes to a place
of the stream exactly if no parenthesis in front of it closes where none is open.  What waits there
are ordered segments between the parentheses that are still open: in each of them some of `or`,
`xor` and `and`, once each and in this order from the bottom, and then negations.  A closing
parenthesis lets the uppermost segment out as a whole, from the tightest operator to the loosest,
and so does the end of the stream if no parenthesis is open. -/
theorem segmented_between_tokens {ts read rest : List Token} (hts : ts = read ++ rest) :
    ((∃ y, read.foldlM Yard.step ⟨[], []⟩ = .ok y) ↔
      ∀ front, front <+: read → front.count (.mark .rparen) ≤ front.count (.mark .lparen)) ∧
    ∀ y, read.foldlM Yard.step ⟨[], []⟩ = .ok y →
      ofInfix ts = rest.foldlM Yard.step y >>= Yard.finish ∧
      ∃ (top : List Operator) (lower : List (List Operator)), Yard.Segmented read y top lower ∧
        y.pending.count .barrier = lower.length ∧
        (∀ s ∈ top :: lower, (s.Pairwise fun o below => below.precedence ≤ o.precedence) ∧
          ∃ (cs : List Connective) (n : Nat), cs.Sublist [.or, .xor, .and] ∧
            s.reverse = cs.map .conn ++ List.replicate n .not) ∧
        (∀ s later, lower = s :: later → ∃ y', y.step (.mark .rparen) = .ok y' ∧
          y'.pending = stack s later ∧
          y'.output.reverse = y.output.reverse ++ top.map Token.plain) ∧
        (lower = [] → y.finish = .ok (y.output.reverse ++ top.map Token.plain)) := by
  refine ⟨Yard.exists_run_iff_count, fun y hy => ⟨?_, ?_⟩⟩
  · rw [hts, ofInfix, List.foldlM_append, hy]
    rfl
  · obtain ⟨top, lower, h⟩ := Yard.exists_segmented hy
    refine ⟨top, lower, h, ?_, fun s hs => ?_, ?_, ?_⟩
    · rw [h.pending_eq, count_barrier_stack]
    · exact ⟨(h.above s hs).imp Operator.Above.le, Operator.exists_reverse_eq (h.above s hs)⟩
    · rintro s later rfl
      refine ⟨_, h.step_rparen, rfl, ?_⟩
      rw [List.reverse_append, List.reverse_reverse]
    · rintro rfl
      exact h.finish_eq

/-- In the middle of a stream that is not well-formed, with a parenthesis open: the exclusive or has
let out the negation in front of it, and two more negations wait. -/
theorem segmented_between_tokens_negations :
    let read : List Token := [.var "a", .plain (.conn .or), .mark .lparen, .op .not true,
      .plain (.conn .xor), .plain (.conn .and), .op .not true, .op .not true]
    let y : Yard := ⟨[.plain .not, .var "a"],
      [.op .not, .op .not, .op (.conn .and), .op (.conn .xor), .barrier, .op (.conn .or)]⟩
    read.foldlM Yard.step ⟨[], []⟩ = .ok y ∧
      ofInfix (read ++ [.mark .rparen]) = [.mark .rparen].foldlM Yard.step y >>= Yard.finish ∧
      ∃ (top : List Operator) (lower : List (List Operator)), Yard.Segmented read y top lower ∧
        lower.length = 1 ∧
        top.Pairwise (fun o below => below.precedence ≤ o.precedence) ∧
        ∃ y', y.step (.mark .rparen) = .ok y' ∧
          y'.output.reverse = y.output.reverse ++ top.map Token.plain := by
  intro read y
  have hy : read.foldlM Yard.step ⟨[], []⟩ = .ok y := rfl
  obtain ⟨-, hstate⟩ := segmented_between_tokens (rfl : read ++ [.mark .rparen] = _)
  obtain ⟨hrest, top, lower, h, -, hsegments, hclose, -⟩ := hstate y hy
  have hlength : lower.length = 1 := h.length_lower
  obtain ⟨s, rfl⟩ := List.length_eq_one_iff.1 hlength
  obtain ⟨y', hstep, -, hout⟩ := hclose s [] rfl
  exact ⟨hy, hrest, top, [s], h, rfl, (hsegments top (.head _)).1, y', hstep, hout⟩

end Postfix

end TruthTable
