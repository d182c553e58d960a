import TruthTable.Proofs.Sequence

/-!
# Proofs/Evaluation — values on a stack follow trees on a stack

The stack of values holds, at any time, the values of the trees that the same tokens have put on the
stack of trees.  So evaluation comes to what the tree comes to, and goes wrong where no tree can be
formed; only a variable without a value, met before, is refused instead.

* `Valuation.guard` — an outcome behind some variables.
* `Expr.eval_eq_guard`, `Expr.eval_eq_truth` — the value of a tree.
* `evalStep_map_truth`, `foldlM_evalStep_map_truth` — one token, and a run, on both stacks.
* `Fault` — where a sequence goes wrong.
* `eval_follows_toExpr` — what the evaluation of any sequence comes to.
-/

namespace TruthTable

variable {α : Type}

/-! ## Variables without a value -/

namespace Valuation

/-- **The outcome behind some variables.**  The first of them without a value is refused; the
outcome comes about only where each has one. -/
def guard (v : Valuation) : List String → Except ExprError α → Except ExprError α
  | [], outcome => outcome
  | n :: ns, outcome => if (v n).isSome then guard v ns outcome else .error (.undefinedVar n)

/-- The valuation with `false` for what has no value. -/
def total (v : Valuation) (n : String) : Bool := (v n).getD false

variable {v w : Valuation} {outcome : Except ExprError α}

theorem guard_append (v : Valuation) : ∀ (ms ns : List String) (outcome : Except ExprError α),
    v.guard (ms ++ ns) outcome = v.guard ms (v.guard ns outcome)
  | [], _, _ => rfl
  | m :: ms, ns, outcome => by
    rw [List.cons_append, guard, guard, guard_append v ms]

/-- What comes next waits for the variables as well. -/
theorem guard_bind {β : Type} (v : Valuation) (x : Except ExprError α)
    (f : α → Except ExprError β) : ∀ ns : List String,
    v.guard ns x >>= f = v.guard ns (x >>= f)
  | [] => rfl
  | n :: ns => by
    rw [guard, guard, ← guard_bind v x f ns]
    split <;> rfl

/-- Where each variable has a value, nothing is refused. -/
theorem guard_of_isSome : ∀ {ns : List String}, (∀ n ∈ ns, (v n).isSome) →
    v.guard ns outcome = outcome
  | [], _ => rfl
  | n :: ns, h => by
    obtain ⟨hn, hns⟩ := List.forall_mem_cons.1 h
    rw [guard, if_pos hn, guard_of_isSome hns]

/-- Only the values of the variables matter. -/
theorem guard_congr : ∀ {ns : List String}, (∀ n ∈ ns, v n = w n) →
    v.guard ns outcome = w.guard ns outcome
  | [], _ => rfl
  | n :: ns, h => by
    obtain ⟨hn, hns⟩ := List.forall_mem_cons.1 h
    rw [guard, guard, hn, guard_congr hns]

end Valuation

namespace Expr

/-- **The truth function of a tree**, over valuations that give every variable a value. -/
def truth (w : String → Bool) : Expr → Bool
  | var n => w n
  | const b => b
  | not e => !e.truth w
  | bin c l r => c.apply (l.truth w) (r.truth w)

theorem truth_congr {w w' : String → Bool} : ∀ {e : Expr}, (∀ n ∈ e.occurrences, w n = w' n) →
    e.truth w = e.truth w'
  | var n, h => h n (List.mem_singleton_self n)
  | const _, _ => rfl
  | not e, h => congrArg (!·) (truth_congr (e := e) h)
  | bin c l r, h => by
    obtain ⟨hl, hr⟩ := List.forall_mem_append.1 h
    rw [truth, truth, truth_congr hl, truth_congr hr]

/-- **A tree has the value of its truth function**, behind its variables. -/
theorem eval_eq_guard (v : Valuation) : ∀ e : Expr,
    e.eval v = v.guard e.occurrences (.ok (e.truth v.total))
  | var n => by
    rw [eval, occurrences, Valuation.guard, truth, Valuation.total]
    cases v n <;> rfl
  | const _ => rfl
  | not e => by
    rw [eval, eval_eq_guard v e, Valuation.guard_bind]
    rfl
  | bin c l r => by
    rw [eval, eval_eq_guard v l, eval_eq_guard v r, Valuation.guard_bind, occurrences,
      Valuation.guard_append]
    refine congrArg (v.guard l.occurrences) ?_
    exact Valuation.guard_bind v _ _ r.occurrences

/-- **A tree whose variables all have a value has one**, whatever other variables there are. -/
theorem eval_eq_truth {v : Valuation} {w : String → Bool} {e : Expr}
    (h : ∀ n ∈ e.occurrences, v n = some (w n)) : e.eval v = .ok (e.truth w) := by
  have hsome : ∀ n ∈ e.occurrences, (v n).isSome := fun n hn => by rw [h n hn]; rfl
  have htotal : ∀ n ∈ e.occurrences, v.total n = w n := fun n hn => by
    rw [Valuation.total, h n hn]
    rfl
  rw [eval_eq_guard, Valuation.guard_of_isSome hsome, truth_congr htotal]

end Expr

namespace Postfix

/-! ## One token -/

/-- **A token does to the values what it does to the trees**, once its variable has a value. -/
theorem evalStep_map_truth (v : Valuation) : ∀ (stack : List Expr) (t : Token),
    evalStep v (stack.map (Expr.truth v.total)) t =
      v.guard t.name?.toList ((List.map (Expr.truth v.total)) <$> treeStep stack t)
  | stack, .var n => by
    rw [evalStep, treeStep, Token.name?, Option.toList, Valuation.guard, Valuation.guard]
    cases hn : v n with
    | none => rfl
    | some b =>
      have htotal : v.total n = b := by rw [Valuation.total, hn]; rfl
      rw [← htotal]
      rfl
  | _, .const _ | _, .mark _ | [], .op .not _ | _ :: _, .op .not _ => rfl
  | [], .op (.conn _) _ | [_], .op (.conn _) _ | _ :: _ :: _, .op (.conn _) _ => rfl

/-- **A run over trees is a run over their values**, behind its variables. -/
theorem foldlM_evalStep_map_truth (v : Valuation) : ∀ {ts : List Token} {stack stack' : List Expr},
    ts.foldlM treeStep stack = .ok stack' →
      ts.foldlM (evalStep v) (stack.map (Expr.truth v.total)) =
        v.guard (names ts) (.ok (stack'.map (Expr.truth v.total)))
  | [], stack, stack', h => by
    obtain rfl := Except.ok.inj h
    rfl
  | t :: ts, stack, stack', h => by
    rw [List.foldlM_cons, bind_eq_ok_iff] at h
    obtain ⟨st, hstep, hrun⟩ := h
    have hnames : names (t :: ts) = t.name?.toList ++ names ts := by
      rw [names, List.filterMap_cons, names]
      cases t.name? <;> rfl
    rw [List.foldlM_cons, evalStep_map_truth, hstep, Valuation.guard_bind, hnames,
      Valuation.guard_append, ← foldlM_evalStep_map_truth v hrun]
    rfl

/-! ## Sequences that denote a tree -/

/-- **The value of a sequence that denotes a tree** is that of the tree's truth function, behind the
variables. -/
theorem eval_eq_guard {ts : List Token} {e : Expr} (h : toExpr ts = .ok e) (v : Valuation) :
    eval ts v = v.guard (names ts) (.ok (e.truth v.total)) := by
  have hrun := foldlM_evalStep_map_truth v (toExpr_eq_ok_iff_run.1 h)
  rw [List.map_nil] at hrun
  rw [eval, hrun, Valuation.guard_bind]
  rfl

/-- **The stack evaluator agrees with the tree** under every valuation, refusals included. -/
theorem eval_eq_of_toExpr {ts : List Token} {e : Expr} (h : toExpr ts = .ok e) (v : Valuation) :
    eval ts v = e.eval v := by
  rw [eval_eq_guard h, e.eval_eq_guard, names_eq_of_toExpr h]

/-! ## Sequences that denote none -/

/-- **Where a sequence goes wrong**: at the token behind `read`, which finds too few trees or has no
meaning, or at the end, where the trees that are left are not one. -/
inductive Fault : (ts read : List Token) → Malformed → Prop
  | token {read t rest stack m} (hrun : read.foldlM treeStep [] = .ok stack)
    (h : treeStep stack t = .error (.malformed m)) : Fault (read ++ t :: rest) read m
  | leftover {ts stack} (hrun : ts.foldlM treeStep [] = .ok stack) (h : stack.length ≠ 1) :
    Fault ts ts .leftover

/-- A variable is never at fault. -/
theorem treeStep_eq_error {x : ExprError} {stack : List Expr} {t : Token}
    (h : treeStep stack t = .error x) : t.name? = none ∧ ∃ m, x = .malformed m := by
  cases t with
  | var n => cases h
  | const b => cases h
  | mark m => exact ⟨rfl, _, (Except.error.inj h).symm⟩
  | op o inFront =>
    cases o with
    | not =>
      cases stack with
      | nil => exact ⟨rfl, _, (Except.error.inj h).symm⟩
      | cons e st => cases h
    | conn c =>
      rcases stack with _ | ⟨r, _ | ⟨l, st⟩⟩
      · exact ⟨rfl, _, (Except.error.inj h).symm⟩
      · exact ⟨rfl, _, (Except.error.inj h).symm⟩
      · cases h

/-- **A sequence denotes no tree** exactly where it goes wrong. -/
theorem toExpr_eq_error_iff {ts : List Token} {x : ExprError} :
    toExpr ts = .error x ↔ ∃ read m, Fault ts read m ∧ x = .malformed m := by
  rw [toExpr, bind_eq_error_iff]
  constructor
  · rintro (h | ⟨stack, hrun, h⟩)
    · obtain ⟨read, t, rest, stack, rfl, hrun, hstep⟩ := foldlM_eq_error_iff.1 h
      obtain ⟨-, m, rfl⟩ := treeStep_eq_error hstep
      exact ⟨read, m, .token hrun hstep, rfl⟩
    · rcases stack with _ | ⟨e, _ | ⟨d, st⟩⟩
      · exact ⟨ts, .leftover, .leftover hrun (by simp), (Except.error.inj h).symm⟩
      · cases h
      · exact ⟨ts, .leftover, .leftover hrun (by simp), (Except.error.inj h).symm⟩
  · rintro ⟨read, m, ⟨hrun, hstep⟩ | ⟨hrun, hlength⟩, rfl⟩
    · exact .inl (foldlM_eq_error_iff.2 ⟨_, _, _, _, rfl, hrun, hstep⟩)
    · refine .inr ⟨_, hrun, ?_⟩
      split
      · exact absurd rfl hlength
      · rfl

/-- **Evaluation goes wrong in the same place**, behind the variables read before. -/
theorem Fault.eval_eq {ts read : List Token} {m : Malformed} (h : Fault ts read m) (v : Valuation) :
    eval ts v = v.guard (names read) (.error (.malformed m)) := by
  cases h with
  | @token _ t rest stack _ hrun hstep =>
    have hstep' : evalStep v (stack.map (Expr.truth v.total)) t = .error (.malformed m) := by
      rw [evalStep_map_truth, hstep, (treeStep_eq_error hstep).1]
      rfl
    have hrun' := foldlM_evalStep_map_truth v hrun
    rw [List.map_nil] at hrun'
    rw [eval, List.foldlM_append, hrun', Valuation.guard_bind, Valuation.guard_bind]
    simp only [bind, Except.bind, List.foldlM_cons, hstep']
  | @leftover _ stack hrun hlength =>
    have hrun' := foldlM_evalStep_map_truth v hrun
    rw [List.map_nil] at hrun'
    rw [eval, hrun', Valuation.guard_bind]
    refine congrArg (v.guard (names ts)) ?_
    rcases stack with _ | ⟨e, _ | ⟨d, st⟩⟩
    · rfl
    · exact absurd rfl hlength
    · rfl

/-- What is read before the fault belongs to the sequence. -/
theorem Fault.names_subset {ts read : List Token} {m : Malformed} (h : Fault ts read m) :
    ∀ n ∈ names read, n ∈ names ts := by
  cases h with
  | @token _ t rest =>
    intro n hn
    rw [names_append]
    exact List.mem_append_left _ hn
  | leftover => exact fun _ hn => hn

/-! ## Any sequence -/

/-- **Evaluation reads the variables of the sequence alone**, whatever the sequence. -/
theorem eval_congr {ts : List Token} {v w : Valuation} (h : ∀ n ∈ names ts, v n = w n) :
    eval ts v = eval ts w := by
  -- Either way the outcome stands behind variables of the sequence.
  cases htree : toExpr ts with
  | ok e =>
    have htotal : ∀ n ∈ e.occurrences, v.total n = w.total n := fun n hn => by
      rw [← names_eq_of_toExpr htree] at hn
      rw [Valuation.total, Valuation.total, h n hn]
    rw [eval_eq_guard htree, eval_eq_guard htree, Valuation.guard_congr h, Expr.truth_congr htotal]
  | error x =>
    obtain ⟨read, m, hfault, -⟩ := toExpr_eq_error_iff.1 htree
    have hread : ∀ n ∈ names read, v n = w n := fun n hn => h n (hfault.names_subset n hn)
    rw [hfault.eval_eq, hfault.eval_eq, Valuation.guard_congr hread]

/-- **The evaluation of a sequence follows its tree**, whatever the sequence and the values.

1. Where the sequence denotes a tree, both come to the same truth value behind the variables, and to
   no refusal where each variable has a value.
2. Where it goes wrong and denotes none, evaluation comes to the same refusal, behind the variables
   read before.
3. Values that count alike for the variables of the sequence give the same outcome. -/
theorem eval_follows_toExpr (ts : List Token) {α : Type} (truth : α → Bool)
    (values : String → Option α) :
    (∀ e, toExpr ts = .ok e → ∃ b : Bool,
      eval ts (.ofValues truth values) =
        (Valuation.ofValues truth values).guard (names ts) (.ok b) ∧
      e.eval (.ofValues truth values) =
        (Valuation.ofValues truth values).guard (names ts) (.ok b) ∧
      ((∀ n ∈ names ts, (values n).isSome) →
        eval ts (.ofValues truth values) = .ok b ∧ e.eval (.ofValues truth values) = .ok b)) ∧
    ((∀ x, toExpr ts = .error x ↔ ∃ read m, Fault ts read m ∧ x = .malformed m) ∧
      ∀ read m, Fault ts read m → eval ts (.ofValues truth values) =
        (Valuation.ofValues truth values).guard (names read) (.error (.malformed m))) ∧
    ∀ {β : Type} (truth' : β → Bool) (values' : String → Option β),
      (∀ n ∈ names ts, (values n).map truth = (values' n).map truth') →
        eval ts (.ofValues truth values) = eval ts (.ofValues truth' values') ∧
        ∀ e, toExpr ts = .ok e →
          e.eval (.ofValues truth values) = e.eval (.ofValues truth' values') := by
  refine ⟨fun e he => ?_, ⟨fun x => toExpr_eq_error_iff, fun read m h => h.eval_eq _⟩,
    fun truth' values' h => ?_⟩
  · have hguard := eval_eq_guard he (.ofValues truth values)
    have htree := (eval_eq_of_toExpr he (.ofValues truth values)).symm.trans hguard
    refine ⟨_, hguard, htree, fun hsome => ?_⟩
    have hall : ∀ n ∈ names ts, (Valuation.ofValues truth values n).isSome := fun n hn => by
      rw [Valuation.ofValues, Option.isSome_map]
      exact hsome n hn
    rw [hguard, htree, Valuation.guard_of_isSome hall]
    exact ⟨rfl, rfl⟩
  · have hseq : eval ts (.ofValues truth values) = eval ts (.ofValues truth' values') :=
      eval_congr h
    exact ⟨hseq, fun e he => by rw [← eval_eq_of_toExpr he, hseq, eval_eq_of_toExpr he]⟩

/-- A tree behind a variable without a value, and a fault behind a variable with one: `B` has no
value, and `A` has one that is neither true nor false. -/
theorem eval_follows_toExpr_without_b :
    let values : String → Option Nat := fun n => if n = "A" then some 2 else none
    let v := Valuation.ofValues (· != 0) values
    let w := Valuation.ofValues id fun n => if n = "A" then some true else none
    (∃ e, toExpr [.var "A", .op .not true, .var "B", .plain (.conn .xor)] = .ok e ∧
      eval [.var "A", .op .not true, .var "B", .plain (.conn .xor)] v = .error (.undefinedVar "B") ∧
      e.eval v = .error (.undefinedVar "B")) ∧
    eval [.var "A", .plain (.conn .and), .var "B"] v =
      .error (.malformed (.missingOperand (.conn .and))) ∧
    eval [.var "A", .mark .prime] v = eval [.var "A", .mark .prime] w := by
  intro values v w
  have htree : toExpr [.var "A", .op .not true, .var "B", .plain (.conn .xor)] =
      .ok (.bin .xor (.not (.var "A")) (.var "B")) := rfl
  have hrun : [Token.var "A"].foldlM treeStep [] = .ok [.var "A"] := rfl
  have hfault : Fault ([.var "A"] ++ [.plain (.conn .and), .var "B"]) [.var "A"]
      (.missingOperand (.conn .and)) := .token hrun rfl
  obtain ⟨b, hseq, heval, -⟩ := (eval_follows_toExpr _ (· != 0) values).1 _ htree
  refine ⟨⟨_, htree, hseq, heval⟩, ?_, ?_⟩
  · exact (eval_follows_toExpr _ (· != 0) values).2.1.2 _ _ hfault
  · exact ((eval_follows_toExpr _ (· != 0) values).2.2 id _ (by decide)).1

end Postfix

end TruthTable
