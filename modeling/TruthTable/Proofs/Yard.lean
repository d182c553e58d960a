import TruthTable.Postfix
import TruthTable.Proofs.Outcome
import TruthTable.Proofs.Grammar.Alternation

/-!
# Proofs/Yard — what the reordering keeps of any stream

The yard neither adds nor loses a token, whatever the stream: what is out and what waits are
together the tokens read so far, parentheses apart, so each token of the sequence can be traced back
to its place in the stream.  An operand goes straight out, behind all that was out before it, so no
token comes to stand in front of an operand that it stood behind.  The barriers that wait are the
parentheses still open, so a stream passes exactly when its parentheses balance.

* `Reordering` — from which places the tokens of a sequence come; `exists_reordering` says that
  those of a postfix sequence come from the stream.
* `perm_of_ofInfix` — the postfix sequence is a permutation of the stream.
* `not_mem_of_ofInfix` — it holds nothing of the infix notation.
* `exists_ofInfix_iff` — the streams that have a postfix sequence.
-/

namespace TruthTable

namespace Token

/-- **What a token leaves in the sequence**: a parenthesis leaves nothing, an apostrophe a plain
negation. -/
def shunted? : Token → Option Token
  | mark .prime => some (plain .not)
  | mark .lparen | mark .rparen => none
  | op o _ => some (plain o)
  | t => some t

/-- A variable or a constant. -/
def isOperand : Token → Bool
  | var _ | const _ => true
  | _ => false

end Token

namespace Postfix

/-! ## Places -/

/-- The tokens of a stream that leave something in the sequence, each **with its place**. -/
def places (ts : List Token) : List (Token × Nat) :=
  ts.zipIdx.filter fun p => p.1.shunted?.isSome

theorem places_concat (ts : List Token) (t : Token) :
    places (ts ++ [t]) = places ts ++ if t.shunted?.isSome then [(t, ts.length)] else [] := by
  rw [places, List.zipIdx_append, List.filter_append, List.zipIdx_singleton, List.filter_cons,
    List.filter_nil, Nat.zero_add]
  rfl

theorem lt_length_of_mem_places {ts : List Token} {p : Token × Nat} (h : p ∈ places ts) :
    p.2 < ts.length := by
  simpa using List.snd_lt_of_mem_zipIdx (List.mem_filter.1 h).1

theorem filterMap_places (ts : List Token) :
    (places ts).filterMap (fun p => p.1.shunted?) = ts.filterMap Token.shunted? := by
  have hfst : ts.zipIdx.filterMap (fun p => p.1.shunted?) = ts.filterMap Token.shunted? := by
    have hmap := congrArg (List.filterMap Token.shunted?) (List.zipIdx_map_fst 0 ts)
    rwa [List.filterMap_map] at hmap
  rw [← hfst, places, List.filterMap_filter]
  refine congrArg (List.filterMap · _) (funext fun p => ?_)
  cases p.1.shunted? <;> rfl

/-- **Where the tokens of a sequence come from**: `order` lists the tokens of the stream, each with
its place, in the order in which the sequence has them.  What stands in front of an operand stood in
front of it in the stream. -/
structure Reordering (ts seq : List Token) (order : List (Token × Nat)) : Prop where
  perm : order.Perm (places ts)
  leaves : order.map (fun p => p.1.shunted?) = seq.map some
  behind : order.Pairwise fun p q => q.1.isOperand = true → p.2 < q.2

/-- The token that waits; a barrier is none. -/
def Pending.token? : Pending → Option Token
  | barrier => none
  | op o => some (.plain o)

namespace Yard

/-- **The number of open parentheses.** -/
def depth (y : Yard) : Nat := y.pending.count .barrier

/-- **Where the tokens read so far are**: `out` lists those that are out, `waiting` those that wait,
each with its place in the stream and the next to go out first. -/
structure Traced (read : List Token) (y : Yard) (out waiting : List (Token × Nat)) : Prop where
  perm : (out ++ waiting).Perm (places read)
  output_eq : out.map (fun p => p.1.shunted?) = y.output.reverse.map some
  pending_eq : waiting.map (fun p => p.1.shunted?) = (y.pending.filterMap Pending.token?).map some
  behind : out.Pairwise fun p q => q.1.isOperand = true → p.2 < q.2

/-! ## Letting out -/

@[simp] theorem depth_release (p : Operator → Bool) : ∀ (out : List Token) (ps : List Pending),
    (release p out ps).depth = depth ⟨out, ps⟩
  | _, [] | _, .barrier :: _ => rfl
  | out, .op o :: ps => by
    rw [release]
    split
    · rw [depth_release p _ ps]
      simp [depth]
    · rfl

/-- Where all may go out, only a barrier holds something back. -/
theorem release_all : ∀ (out : List Token) (ps : List Pending),
    ∃ out', release (fun _ => true) out ps = ⟨out', []⟩ ∨
      ∃ qs, release (fun _ => true) out ps = ⟨out', .barrier :: qs⟩
  | out, [] => ⟨out, .inl rfl⟩
  | out, .barrier :: qs => ⟨out, .inr ⟨qs, rfl⟩⟩
  | out, .op o :: ps => release_all (.plain o :: out) ps

variable {read : List Token} {out waiting : List (Token × Nat)}

/-- A token that leaves a plain operator is no operand. -/
theorem not_isOperand_of_shunted? {t : Token} {o : Operator} (h : t.shunted? = some (.plain o)) :
    t.isOperand = false := by
  cases t with
  | var _ | const _ => nomatch h
  | op _ _ | mark _ => rfl

/-- **What is let out keeps its place.** -/
theorem Traced.release (p : Operator → Bool) : ∀ {output : List Token} {ps : List Pending}
    {out waiting : List (Token × Nat)}, Traced read ⟨output, ps⟩ out waiting →
      ∃ out' waiting', Traced read (Yard.release p output ps) out' waiting'
  | _, [], _, _, h | _, .barrier :: _, _, _, h => ⟨_, _, h⟩
  | output, .op o :: ps, out, waiting, h => by
    rw [Yard.release]
    split
    · obtain ⟨w, ws, rfl, hw, hws⟩ := List.map_eq_cons_iff.1 h.pending_eq
      have hlast : ∀ a ∈ out, ∀ b ∈ [w], b.1.isOperand = true → a.2 < b.2 := by
        rintro a - b hb hoperand
        obtain rfl := List.mem_singleton.1 hb
        nomatch (not_isOperand_of_shunted? hw).symm.trans hoperand
      have hout : Traced read ⟨.plain o :: output, ps⟩ (out ++ [w]) ws :=
        { perm := by simpa using h.perm
          output_eq := by simp [h.output_eq, hw]
          pending_eq := hws
          behind := List.pairwise_append.2 ⟨h.behind, List.pairwise_singleton _ _, hlast⟩ }
      exact hout.release p
    · exact ⟨_, _, h⟩

/-! ## One token -/

variable {y y' : Yard} {t : Token}

/-- **A token that goes straight out** stands behind all that was read before it. -/
theorem Traced.emit (h : Traced read y out waiting) {u : Token} (hu : t.shunted? = some u) :
    Traced (read ++ [t]) ⟨u :: y.output, y.pending⟩ (out ++ [(t, read.length)]) waiting where
  perm := by
    rw [places_concat, hu, Option.isSome_some, if_pos rfl, List.append_assoc]
    exact (List.perm_middle.trans (h.perm.cons _)).trans (List.perm_append_singleton _ _).symm
  output_eq := by simp [h.output_eq, hu]
  pending_eq := h.pending_eq
  behind := by
    refine List.pairwise_append.2 ⟨h.behind, List.pairwise_singleton _ _, fun a ha b hb _ => ?_⟩
    obtain rfl := List.mem_singleton.1 hb
    exact lt_length_of_mem_places (h.perm.mem_iff.1 (List.mem_append_left _ ha))

theorem Traced.wait (h : Traced read y out waiting) (o : Operator) (inFront : Bool) :
    Traced (read ++ [.op o inFront]) ⟨y.output, .op o :: y.pending⟩ out
      ((.op o inFront, read.length) :: waiting) where
  perm := by
    rw [places_concat]
    exact (List.perm_middle.trans (h.perm.cons _)).trans (List.perm_append_singleton _ _).symm
  output_eq := h.output_eq
  pending_eq := congrArg (List.cons (some (Token.plain o))) h.pending_eq
  behind := h.behind

/-- A parenthesis moves no other token. -/
theorem Traced.skip (h : Traced read y out waiting) (ht : t.shunted? = none) {ps : List Pending}
    (hps : ps.filterMap Pending.token? = y.pending.filterMap Pending.token?) :
    Traced (read ++ [t]) ⟨y.output, ps⟩ out waiting where
  perm := by
    rw [places_concat, ht]
    simpa using h.perm
  output_eq := h.output_eq
  pending_eq := by rw [h.pending_eq, hps]
  behind := h.behind

/-- **One token more is traced.** -/
theorem Traced.step (h : Traced read y out waiting) : ∀ {t : Token}, y.step t = .ok y' →
    ∃ out' waiting', Traced (read ++ [t]) y' out' waiting'
  | .var _, hstep | .const _, hstep | .mark .prime, hstep => by
    obtain rfl := Except.ok.inj hstep
    exact ⟨_, _, h.emit rfl⟩
  | .op o inFront, hstep => by
    obtain rfl := Except.ok.inj hstep
    obtain ⟨out', waiting', hrelease⟩ := Traced.release (Operator.yieldsTo · o) h
    exact ⟨_, _, hrelease.wait o inFront⟩
  | .mark .lparen, hstep => by
    obtain rfl := Except.ok.inj hstep
    exact ⟨_, _, h.skip rfl rfl⟩
  | .mark .rparen, hstep => by
    obtain ⟨out', waiting', hrelease⟩ := Traced.release (fun _ => true) h
    obtain ⟨output, hrel | ⟨qs, hrel⟩⟩ := release_all y.output y.pending
    · rw [Yard.step, hrel] at hstep
      nomatch hstep
    · rw [Yard.step, hrel] at hstep
      rw [hrel] at hrelease
      obtain rfl := Except.ok.inj hstep
      exact ⟨_, _, hrelease.skip rfl rfl⟩

/-- A closing parenthesis closes an open one. -/
theorem step_rparen (y : Yard) :
    (y.step (.mark .rparen) = .error .mismatchedParens ∧ y.depth = 0) ∨
      ∃ y', y.step (.mark .rparen) = .ok y' ∧ y.depth = y'.depth + 1 := by
  have hdepth := depth_release (fun _ => true) y.output y.pending
  obtain ⟨out, hrel | ⟨qs, hrel⟩⟩ := release_all y.output y.pending
  · refine .inl ⟨by rw [step, hrel], ?_⟩
    rw [hrel] at hdepth
    exact hdepth.symm
  · refine .inr ⟨⟨out, qs⟩, by rw [step, hrel], ?_⟩
    rw [hrel, depth, List.count_cons_self] at hdepth
    exact hdepth.symm

/-! ## The end -/

/-- At the end **all that waits goes out**. -/
theorem Traced.finish (h : Traced read y out waiting) {seq : List Token}
    (hend : y.finish = .ok seq) : ∃ order, Reordering read seq order := by
  obtain ⟨out', waiting', hrelease⟩ := Traced.release (fun _ => true) h
  obtain ⟨output, hrel | ⟨qs, hrel⟩⟩ := release_all y.output y.pending
  · rw [Yard.finish, hrel] at hend
    rw [hrel] at hrelease
    obtain rfl := Except.ok.inj hend
    obtain rfl := List.map_eq_nil_iff.1 hrelease.pending_eq
    have hperm := hrelease.perm
    rw [List.append_nil] at hperm
    exact ⟨out', hperm, hrelease.output_eq, hrelease.behind⟩
  · rw [Yard.finish, hrel] at hend
    nomatch hend

/-- **The end is reached** where no parenthesis is open. -/
theorem exists_finish_iff (y : Yard) : (∃ seq, y.finish = .ok seq) ↔ y.depth = 0 := by
  have hdepth := depth_release (fun _ => true) y.output y.pending
  obtain ⟨out, hrel | ⟨qs, hrel⟩⟩ := release_all y.output y.pending
  · rw [finish, hrel, ← show depth ⟨out, []⟩ = y.depth from hrel ▸ hdepth]
    exact ⟨fun _ => rfl, fun _ => ⟨_, rfl⟩⟩
  · rw [hrel, depth, List.count_cons_self] at hdepth
    rw [finish, hrel]
    constructor
    · rintro ⟨seq, h⟩
      nomatch h
    · intro h
      exact absurd (hdepth.trans h) (Nat.succ_ne_zero _)

/-! ## The whole stream -/

/-- **All tokens read are traced**, along any stream. -/
theorem Traced.run : ∀ {ts read : List Token} {y y' : Yard} {out waiting : List (Token × Nat)},
    Traced read y out waiting → ts.foldlM Yard.step y = .ok y' →
      ∃ out' waiting', Traced (read ++ ts) y' out' waiting'
  | [], read, y, y', out, waiting, h, hrun => by
    obtain rfl := Except.ok.inj hrun
    exact ⟨_, _, (List.append_nil read).symm ▸ h⟩
  | t :: ts, read, y, y', out, waiting, h, hrun => by
    rw [List.foldlM_cons, bind_eq_ok_iff] at hrun
    obtain ⟨z, hstep, hrun⟩ := hrun
    obtain ⟨out', waiting', hz⟩ := h.step hstep
    have hrest := hz.run hrun
    rwa [List.append_assoc] at hrest

/-- **A stream passes** exactly when the open parentheses and its own balance. -/
theorem exists_run_iff : ∀ {ts : List Token} {y : Yard},
    (∃ seq, ts.foldlM step y >>= finish = .ok seq) ↔ Balanced y.depth ts
  | [], y => exists_finish_iff y
  | .var _ :: ts, y | .const _ :: ts, y | .mark .prime :: ts, y => @exists_run_iff ts _
  | .op o _ :: ts, y => by
    let z := Yard.release (Operator.yieldsTo · o) y.output y.pending
    have hdepth : depth ⟨z.output, .op o :: z.pending⟩ = y.depth :=
      (List.count_cons_of_ne (by simp)).trans (depth_release _ y.output y.pending)
    rw [← hdepth]
    exact @exists_run_iff ts _
  | .mark .lparen :: ts, y => by
    have hdepth : depth ⟨y.output, .barrier :: y.pending⟩ = y.depth + 1 := List.count_cons_self
    rw [Balanced, ← hdepth]
    exact @exists_run_iff ts _
  | .mark .rparen :: ts, y => by
    rcases step_rparen y with ⟨hstep, hdepth⟩ | ⟨y', hstep, hdepth⟩
    · rw [List.foldlM_cons, hstep, hdepth]
      exact ⟨fun ⟨_, h⟩ => (nomatch h), fun h => (nomatch h)⟩
    · rw [List.foldlM_cons, hstep, hdepth]
      exact @exists_run_iff ts _

end Yard

/-- Only parentheses are refused. -/
theorem Yard.step_eq_error {y : Yard} {e : ExprError} : ∀ {t : Token}, y.step t = .error e →
    e = .mismatchedParens
  | .mark .rparen, h => by
    obtain ⟨hstep, -⟩ | ⟨y', hstep, -⟩ := step_rparen y
    · exact (Except.error.inj (hstep.symm.trans h)).symm
    · nomatch hstep.symm.trans h

/-- **A stream without a postfix sequence** is refused for its parentheses. -/
theorem ofInfix_eq_error {ts : List Token} {e : ExprError} (h : ofInfix ts = .error e) :
    e = .mismatchedParens := by
  obtain h | ⟨y, -, h⟩ := bind_eq_error_iff.1 h
  · obtain ⟨read, t, rest, y, rfl, -, hstep⟩ := foldlM_eq_error_iff.1 h
    exact Yard.step_eq_error hstep
  · unfold Yard.finish at h
    split at h
    · nomatch h
    · exact (Except.error.inj h).symm

/-- **The tokens of a postfix sequence come from the stream**, each from a place of its own. -/
theorem exists_reordering {ts seq : List Token} (h : ofInfix ts = .ok seq) :
    ∃ order, Reordering ts seq order := by
  obtain ⟨y, hrun, hend⟩ := bind_eq_ok_iff.1 h
  have hstart : Yard.Traced [] ⟨[], []⟩ [] [] := ⟨.refl _, rfl, rfl, .nil⟩
  obtain ⟨out, waiting, hy⟩ := hstart.run hrun
  exact hy.finish hend

theorem Reordering.filterMap_eq {ts seq : List Token} {order : List (Token × Nat)}
    (h : Reordering ts seq order) : order.filterMap (fun p => p.1.shunted?) = seq := by
  have hleaves := congrArg (List.filterMap id) h.leaves
  rwa [List.filterMap_map, List.filterMap_map, Function.id_comp, Function.id_comp,
    List.filterMap_some] at hleaves

/-- **The postfix sequence is a permutation of the stream**, parentheses apart. -/
theorem perm_of_ofInfix {ts seq : List Token} (h : ofInfix ts = .ok seq) :
    seq.Perm (ts.filterMap Token.shunted?) := by
  obtain ⟨order, horder⟩ := exists_reordering h
  rw [← horder.filterMap_eq, ← filterMap_places]
  exact horder.perm.filterMap _

/-- **A postfix sequence has no marks**, and no operator in it is noted to stand in front. -/
theorem not_mem_of_ofInfix {ts seq : List Token} (h : ofInfix ts = .ok seq) :
    (∀ m, .mark m ∉ seq) ∧ ∀ o, .op o true ∉ seq := by
  have hshunted {u : Token} (hu : u ∈ seq) : ∃ t : Token, t.shunted? = some u := by
    obtain ⟨t, -, ht⟩ := List.mem_filterMap.1 ((perm_of_ofInfix h).mem_iff.1 hu)
    exact ⟨t, ht⟩
  constructor
  · intro m hm
    obtain ⟨_ | _ | ⟨_ | _ | _⟩ | _, ht⟩ := hshunted hm <;> cases ht
  · intro o ho
    obtain ⟨_ | _ | ⟨_ | _ | _⟩ | _, ht⟩ := hshunted ho <;> cases ht

/-- **The streams that have a postfix sequence** are those whose parentheses balance. -/
theorem exists_ofInfix_iff {ts : List Token} : (∃ seq, ofInfix ts = .ok seq) ↔ Balanced 0 ts :=
  Yard.exists_run_iff (y := ⟨[], []⟩)

end Postfix

end TruthTable
