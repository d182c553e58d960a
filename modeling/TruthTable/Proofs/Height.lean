import TruthTable.Markup
import TruthTable.Proofs.NaturalOrder
import TruthTable.Proofs.Yard

/-!
# Proofs/Height — which postfix sequences denote a tree, and which one denotes a given tree

Whether a sequence denotes a tree can be seen without building one: an operator goes through where
there are as many values as it takes, and it leaves one in their place, so it is enough to keep
count of the values.  The tree itself can be read back as the sequence, so nothing but the notes of
standing in front is lost either way.

* `Operator.arity`, `Postfix.height` — what an operator takes, and what a sequence leaves.
* `exists_toExpr_iff` — the sequences that denote a tree.
* `sequence_tree_correspondence` — trees and sequences without notes in front are one to one, and a
  formula holds a tree with its sequence.
-/

namespace TruthTable

/-- How many values the operator **takes**. -/
def Operator.arity : Operator → Nat
  | not => 1
  | conn _ => 2

/-- **How the token changes the number of values**: an operand is one more, an operator leaves one
in place of those it takes. -/
def Token.gain : Token → Int
  | var _ | const _ => 1
  | op o _ => 1 - o.arity
  | mark _ => 0

/-- The token **goes through** where there are `n` values. -/
def Token.Passes (n : Int) : Token → Prop
  | var _ | const _ => True
  | op o _ => o.arity ≤ n
  | mark _ => False

namespace Postfix

/-! ## Heights -/

/-- **The number of values that a sequence leaves** if it goes through. -/
def height : List Token → Int
  | [] => 0
  | t :: ts => t.gain + height ts

@[simp] theorem height_nil : height [] = 0 := rfl

@[simp] theorem height_cons (t : Token) (ts : List Token) :
    height (t :: ts) = t.gain + height ts := rfl

/-- **The sequence goes through** where there are `n` values: it has no marks, and each operator
finds what it takes. -/
structure Replays (n : Int) (ts : List Token) : Prop where
  unmarked : ∀ m, .mark m ∉ ts
  supplied : ∀ read o inFront rest, ts = read ++ .op o inFront :: rest → o.arity ≤ n + height read

variable {n : Int} {t : Token} {ts : List Token} {stack stack' : List Expr}

theorem replays_zero_iff : Replays 0 ts ↔ (∀ m, .mark m ∉ ts) ∧
    ∀ read o inFront rest, ts = read ++ .op o inFront :: rest → (o.arity : Int) ≤ height read := by
  constructor
  · rintro ⟨hunmarked, hsupplied⟩
    refine ⟨hunmarked, fun read o inFront rest hts => ?_⟩
    simpa using hsupplied read o inFront rest hts
  · rintro ⟨hunmarked, hsupplied⟩
    refine ⟨hunmarked, fun read o inFront rest hts => ?_⟩
    simpa using hsupplied read o inFront rest hts

theorem replays_nil (n : Int) : Replays n [] :=
  ⟨fun _ h => (nomatch h), fun _ _ _ _ h => (nomatch List.append_eq_nil_iff.1 h.symm)⟩

/-- **A sequence goes through** when its first token does and the others do behind it. -/
theorem replays_cons_iff : Replays n (t :: ts) ↔ t.Passes n ∧ Replays (n + t.gain) ts := by
  constructor
  · intro h
    refine ⟨?_, fun m hm => h.unmarked m (List.mem_cons_of_mem _ hm), ?_⟩
    · cases t with
      | var _ | const _ => trivial
      | op o inFront => simpa [Token.Passes] using h.supplied [] o inFront ts rfl
      | mark m => exact h.unmarked m List.mem_cons_self
    · rintro read o inFront rest rfl
      simpa [Int.add_assoc] using h.supplied (t :: read) o inFront rest rfl
  · rintro ⟨ht, h⟩
    constructor
    · intro m hm
      rcases List.mem_cons.1 hm with rfl | hm
      · exact ht
      · exact h.unmarked m hm
    · rintro (_ | ⟨u, read⟩) o inFront rest hts
      · obtain ⟨rfl, rfl⟩ := List.cons.inj hts
        simpa [Token.Passes] using ht
      · obtain ⟨rfl, rfl⟩ := List.cons.inj hts
        simpa [Int.add_assoc] using h.supplied read o inFront rest rfl

/-! ## Stacks -/

/-- **One token goes through** where the stack has the values that it takes. -/
theorem exists_treeStep_iff : ∀ {stack : List Expr} {t : Token},
    (∃ stack', treeStep stack t = .ok stack') ↔ t.Passes stack.length
  | _, .var _ | _, .const _ => iff_of_true ⟨_, rfl⟩ trivial
  | [], .op .not _ | [], .op (.conn _) _ | [_], .op (.conn _) _ =>
    iff_of_false (fun ⟨_, h⟩ => (nomatch h)) (by simp [Token.Passes, Operator.arity])
  | _ :: _, .op .not _ | _ :: _ :: _, .op (.conn _) _ =>
    iff_of_true ⟨_, rfl⟩ (by simp only [Token.Passes, Operator.arity, List.length_cons]; omega)
  | _, .mark _ => iff_of_false (fun ⟨_, h⟩ => (nomatch h)) id

/-- **One token changes the height of the stack** by its gain. -/
theorem length_treeStep : ∀ {t : Token}, treeStep stack t = .ok stack' →
    (stack'.length : Int) = stack.length + t.gain
  | .var _, h | .const _, h => by
    obtain rfl := Except.ok.inj h
    rfl
  | .op .not _, h => by
    obtain ⟨e, st, rfl, rfl⟩ := treeStep_not_eq_ok_iff.1 h
    simp [Token.gain, Operator.arity]
  | .op (.conn _) _, h => by
    obtain ⟨r, l, st, rfl, rfl⟩ := treeStep_conn_eq_ok_iff.1 h
    simp only [Token.gain, Operator.arity, List.length_cons]
    omega

/-- **A sequence goes through** where the stack has the values that its operators take. -/
theorem exists_run_iff_replays : ∀ {ts : List Token} {stack : List Expr},
    (∃ stack', ts.foldlM treeStep stack = .ok stack') ↔ Replays stack.length ts
  | [], stack => iff_of_true ⟨stack, rfl⟩ (replays_nil _)
  | t :: ts, stack => by
    simp only [List.foldlM_cons, bind_eq_ok_iff]
    rw [replays_cons_iff, ← exists_treeStep_iff]
    constructor
    · rintro ⟨stack', st, hstep, hrun⟩
      exact ⟨⟨st, hstep⟩, length_treeStep hstep ▸ exists_run_iff_replays.1 ⟨stack', hrun⟩⟩
    · rintro ⟨⟨st, hstep⟩, hrest⟩
      rw [← length_treeStep hstep] at hrest
      obtain ⟨stack', hrun⟩ := exists_run_iff_replays.2 hrest
      exact ⟨stack', st, hstep, hrun⟩

theorem length_run : ∀ {ts : List Token} {stack stack' : List Expr},
    ts.foldlM treeStep stack = .ok stack' → (stack'.length : Int) = stack.length + height ts
  | [], stack, stack', h => by
    obtain rfl := Except.ok.inj h
    simp
  | t :: ts, stack, stack', h => by
    rw [List.foldlM_cons, bind_eq_ok_iff] at h
    obtain ⟨st, hstep, hrun⟩ := h
    rw [length_run hrun, length_treeStep hstep, height_cons, Int.add_assoc]

/-- **The sequences that denote a tree** go through and leave one value. -/
theorem exists_toExpr_iff : (∃ e, toExpr ts = .ok e) ↔ Replays 0 ts ∧ height ts = 1 := by
  have hruns : (∃ stack', ts.foldlM treeStep [] = .ok stack') ↔ Replays 0 ts :=
    exists_run_iff_replays
  rw [← hruns]
  constructor
  · rintro ⟨e, h⟩
    have hrun := toExpr_eq_ok_iff_run.1 h
    have hlength := length_run hrun
    exact ⟨⟨[e], hrun⟩, by simpa using hlength.symm⟩
  · rintro ⟨⟨stack', hrun⟩, hheight⟩
    -- the one value that is left is the tree
    have hlength := length_run hrun
    rw [hheight] at hlength
    obtain ⟨e, rfl⟩ := List.length_eq_one_iff.1 (Int.ofNat_inj.1 hlength)
    exact ⟨e, toExpr_eq_ok_iff_run.2 hrun⟩

/-! ## Trees -/

/-- **Every tree has one sequence without notes in front**, its postorder. -/
theorem toExpr_unnoted_iff {e : Expr} :
    ((∀ o, .op o true ∉ ts) ∧ toExpr ts = .ok e) ↔ ts = e.postorder := by
  rw [toExpr_eq_ok_iff, ← map_plainly_eq_self_iff]
  constructor
  · rintro ⟨hplain, h⟩
    rw [← hplain, h]
  · rintro rfl
    have hself := toExpr_eq_ok_iff.1 (toExpr_postorder e)
    exact ⟨hself, hself⟩

end Postfix

/-! ## Formulas -/

namespace Formula.CompiledFrom

variable {text : String} {f : Formula} {names : List String}

/-- **The sequence of a formula is the postorder of its tree.** -/
theorem sequence_eq_postorder (h : CompiledFrom text f) : f.sequence = f.tree.postorder :=
  Postfix.toExpr_unnoted_iff.1 ⟨(Postfix.not_mem_of_ofInfix h.sequence_eq).2, h.tree_eq⟩

/-- **Its names are the variables of its tree**, however these are listed. -/
theorem sortChecked_eq (h : CompiledFrom text f)
    (hnames : ∀ n, n ∈ names ↔ n ∈ f.tree.occurrences) :
    VarName.sortChecked names = .ok f.names := by
  rw [VarName.sortChecked_eq_ok_iff, h.names_eq]
  exact ⟨fun n hn => h.withinLimit n ((hnames n).1 hn), VarName.sort_congr hnames⟩

end Formula.CompiledFrom

/-- **A postfix sequence and its tree carry the same information.**  A sequence denotes a tree
exactly when it has no marks, each operator in it finds as many values as it takes, and one value is
left.  Trees and the sequences without notes of standing in front are one to one, a tree with its
postorder; such notes change nothing.  So a formula holds a tree with its sequence, and its names
are the variables of both, in whatever order and however often these are listed: those that a
descent through the tree comes back with, where there is room for it, and those of the sequence. -/
theorem sequence_tree_correspondence :
    (∀ ts, (∃ e, Postfix.toExpr ts = .ok e) ↔
      (∀ m, .mark m ∉ ts) ∧
      (∀ read o inFront rest, ts = read ++ .op o inFront :: rest →
        (o.arity : Int) ≤ Postfix.height read) ∧
      Postfix.height ts = 1) ∧
    (∀ ts e, ((∀ o, .op o true ∉ ts) ∧ Postfix.toExpr ts = .ok e) ↔ ts = e.postorder) ∧
    (∀ ts us : List Token, ts.map Token.plainly = us.map Token.plainly →
      Postfix.toExpr ts = Postfix.toExpr us) ∧
    ∀ text f, Formula.compile text = .ok f →
      f.sequence = f.tree.postorder ∧
      VarName.sortChecked f.tree.vars = .ok f.names ∧
      (∀ room names, f.tree.bounded room .names Expr.vars = .ok names →
        VarName.sortChecked names = .ok f.names) ∧
      VarName.sortChecked (Postfix.names f.sequence) = .ok f.names ∧
      (∀ names, (∀ n, n ∈ names ↔ n ∈ f.tree.occurrences) →
        VarName.sortChecked names = .ok f.names) ∧
      ∀ names, (∀ n, n ∈ names ↔ .var n ∈ f.sequence) →
        VarName.sortChecked names = .ok f.names := by
  refine ⟨fun ts => ?_, fun ts e => Postfix.toExpr_unnoted_iff, fun ts us hplain => ?_,
    fun text f hf => ?_⟩
  · rw [Postfix.exists_toExpr_iff, Postfix.replays_zero_iff, and_assoc]
  · rw [← Postfix.toExpr_map_plainly, hplain, Postfix.toExpr_map_plainly]
  · have hf := Formula.compile_eq_ok_iff.1 hf
    have hsequence (names : List String) (hnames : ∀ n, n ∈ names ↔ .var n ∈ f.sequence) :
        VarName.sortChecked names = .ok f.names := by
      refine hf.sortChecked_eq fun n => ?_
      exact (hnames n).trans (Postfix.mem_occurrences_iff hf.tree_eq).symm
    have hvars : VarName.sortChecked f.tree.vars = .ok f.names :=
      hf.sortChecked_eq fun _ => Expr.mem_vars
    refine ⟨hf.sequence_eq_postorder, hvars, fun room names hnames => ?_, ?_,
      fun names => hf.sortChecked_eq, hsequence⟩
    · obtain ⟨-, rfl⟩ := Expr.bounded_eq_ok_iff.1 hnames
      exact hvars
    · exact hsequence _ fun _ => Postfix.mem_names_iff

/-- A note of standing in front that is dropped, and a formula whose names are listed in another
order, one of them twice. -/
theorem sequence_tree_correspondence_noted :
    let noted : List Token := [.var "a", .op .not true, .var "b", .op (.conn .xor) true]
    let unnoted : List Token := [.var "a", .plain .not, .var "b", .plain (.conn .xor)]
    noted.map Token.plainly = unnoted.map Token.plainly ∧
      Postfix.toExpr noted = Postfix.toExpr unnoted ∧
      ∃ f, Formula.compile "!(b1+a)A'" = .ok f ∧ f.sequence = f.tree.postorder ∧
        f.tree.bounded .standard .names Expr.vars = .ok ["A", "a", "b1"] ∧
        VarName.sortChecked ["A", "a", "b1"] = .ok f.names ∧
        (∀ n, n ∈ ["b1", "a", "A", "a"] ↔ n ∈ f.tree.occurrences) ∧
        VarName.sortChecked ["b1", "a", "A", "a"] = .ok f.names ∧
        (∀ n, n ∈ ["a", "A", "b1"] ↔ .var n ∈ f.sequence) ∧
        VarName.sortChecked ["a", "A", "b1"] = .ok f.names := by
  intro noted unnoted
  let f : Formula :=
    { text := "!(b1+a)A'"
      tokens := [.op .not true, .mark .lparen, .var "b1", .plain (.conn .or), .var "a",
        .mark .rparen, .plain (.conn .and), .var "A", .mark .prime]
      sequence := [.var "b1", .var "a", .plain (.conn .or), .plain .not, .var "A", .plain .not,
        .plain (.conn .and)]
      names := ["A", "a", "b1"]
      tree := .bin .and (.not (.bin .or (.var "b1") (.var "a"))) (.not (.var "A")) }
  have hf : Formula.compile "!(b1+a)A'" = .ok f := by decide +kernel
  have hdescent : f.tree.bounded .standard .names Expr.vars = .ok ["A", "a", "b1"] := by
    decide +kernel
  have htree (n : String) : n ∈ ["b1", "a", "A", "a"] ↔ n ∈ f.tree.occurrences := by
    simp [f, Expr.occurrences]
    tauto
  have hsequence (n : String) : n ∈ ["a", "A", "b1"] ↔ .var n ∈ f.sequence := by
    simp [f]
    tauto
  obtain ⟨-, -, hnotes, hformula⟩ := sequence_tree_correspondence
  obtain ⟨hpostorder, -, hroom, -, hofTree, hofSequence⟩ := hformula "!(b1+a)A'" f hf
  exact ⟨rfl, hnotes noted unnoted rfl, f, hf, hpostorder, hdescent, hroom _ _ hdescent, htree,
    hofTree _ htree, hsequence, hofSequence _ hsequence⟩

end TruthTable
