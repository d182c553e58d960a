import TruthTable.Postfix
import TruthTable.Proofs.Outcome

/-!
# Proofs/Sequence — a postfix sequence and its tree carry the same information

A sequence denotes at most one tree, and that tree's postorder is the sequence again, notes of
standing in front apart.

* `toExpr_eq_ok_iff` — a sequence denotes a tree exactly when it is the tree's postorder.
* `names_eq_of_toExpr` — both have the same variables, in the same order.
-/

namespace TruthTable

/-- The token without the note that it stands **in front** of its operand. -/
def Token.plainly : Token → Token
  | .op o _ => .plain o
  | t => t

/-- A list is as it is **without such notes** if it has none. -/
theorem map_plainly_eq_self_iff {ts : List Token} :
    ts.map Token.plainly = ts ↔ ∀ o, .op o true ∉ ts := by
  have hid : ts.map Token.plainly = ts.map id ↔ ∀ t ∈ ts, t.plainly = t := List.map_inj_left
  rw [List.map_id] at hid
  rw [hid]
  constructor
  · intro h o ho
    nomatch h _ ho
  · intro h t ht
    cases t with
    | op o inFront =>
      cases inFront with
      | false => rfl
      | true => exact absurd ht (h o)
    | _ => rfl

namespace Postfix

/-! ## Trees -/

theorem treeStep_plainly (stack : List Expr) : ∀ t : Token,
    treeStep stack t.plainly = treeStep stack t
  | .op .not _ | .op (.conn _) _ | .var _ | .const _ | .mark _ => rfl

theorem foldlM_treeStep_plainly (ts : List Token) (stack : List Expr) :
    (ts.map Token.plainly).foldlM treeStep stack = ts.foldlM treeStep stack := by
  simp only [List.foldlM_map, treeStep_plainly]

/-- Negation takes the latest tree. -/
theorem treeStep_not_eq_ok_iff {inFront : Bool} : ∀ {stack stack' : List Expr},
    treeStep stack (.op .not inFront) = .ok stack' ↔
      ∃ e st, stack = e :: st ∧ stack' = .not e :: st
  | [], _ => ⟨fun h => (nomatch h), fun ⟨_, _, h, _⟩ => (nomatch h)⟩
  | e :: st, stack' => by
    constructor
    · exact fun h => ⟨e, st, rfl, (Except.ok.inj h).symm⟩
    · rintro ⟨_, _, h, rfl⟩
      obtain ⟨rfl, rfl⟩ := List.cons.inj h
      rfl

/-- A connective takes the two latest trees, the right operand first. -/
theorem treeStep_conn_eq_ok_iff {c : Connective} {inFront : Bool} :
    ∀ {stack stack' : List Expr}, treeStep stack (.op (.conn c) inFront) = .ok stack' ↔
      ∃ r l st, stack = r :: l :: st ∧ stack' = .bin c l r :: st
  | [], _ | [_], _ => ⟨fun h => (nomatch h), fun ⟨_, _, _, h, _⟩ => (nomatch h)⟩
  | r :: l :: st, stack' => by
    constructor
    · exact fun h => ⟨r, l, st, rfl, (Except.ok.inj h).symm⟩
    · rintro ⟨_, _, _, h, rfl⟩
      obtain ⟨rfl, rfl, rfl⟩ : r = _ ∧ l = _ ∧ st = _ := by simpa using h
      rfl

/-- **One step adds its token** to the postorders of the trees on the stack, the lowest first. -/
theorem postorder_treeStep {stack stack' : List Expr} : ∀ {t : Token},
    treeStep stack t = .ok stack' →
      stack'.reverse.flatMap Expr.postorder =
        stack.reverse.flatMap Expr.postorder ++ [t.plainly]
  | .var n, h | .const b, h => by
    obtain rfl := Except.ok.inj h
    simp [Expr.postorder, Token.plainly]
  | .op .not _, h => by
    obtain ⟨e, st, rfl, rfl⟩ := treeStep_not_eq_ok_iff.1 h
    simp [Expr.postorder, Token.plainly]
  | .op (.conn c) _, h => by
    obtain ⟨r, l, st, rfl, rfl⟩ := treeStep_conn_eq_ok_iff.1 h
    simp [Expr.postorder, Token.plainly]

/-- **A replayed sequence is spread over the postorders of the trees that it leaves.** -/
theorem postorder_foldlM : ∀ {ts : List Token} {stack stack' : List Expr},
    ts.foldlM treeStep stack = .ok stack' →
      stack'.reverse.flatMap Expr.postorder =
        stack.reverse.flatMap Expr.postorder ++ ts.map Token.plainly
  | [], stack, stack', h => by
    obtain rfl := Except.ok.inj h
    simp
  | t :: ts, stack, stack', h => by
    rw [List.foldlM_cons, bind_eq_ok_iff] at h
    obtain ⟨st, hstep, hrest⟩ := h
    rw [postorder_foldlM hrest, postorder_treeStep hstep, List.append_assoc]
    rfl

/-- A sequence denotes the tree that it leaves alone on the stack. -/
theorem toExpr_eq_ok_iff_run {ts : List Token} {e : Expr} :
    toExpr ts = .ok e ↔ ts.foldlM treeStep [] = .ok [e] := by
  rw [toExpr, bind_eq_ok_iff]
  constructor
  · rintro ⟨_ | ⟨d, _ | ⟨_, _⟩⟩, hrun, hend⟩
    · cases hend
    · obtain rfl := Except.ok.inj hend
      exact hrun
    · cases hend
  · exact fun hrun => ⟨_, hrun, rfl⟩

/-- **Notes of standing in front change nothing**, neither the tree nor the refusal. -/
theorem toExpr_map_plainly (ts : List Token) : toExpr (ts.map Token.plainly) = toExpr ts := by
  rw [toExpr, foldlM_treeStep_plainly]
  rfl

/-- **A sequence denotes a tree exactly when it is the tree's postorder.** -/
theorem toExpr_eq_ok_iff {ts : List Token} {e : Expr} :
    toExpr ts = .ok e ↔ ts.map Token.plainly = e.postorder := by
  constructor
  · intro h
    simpa using (postorder_foldlM (toExpr_eq_ok_iff_run.1 h)).symm
  · intro h
    rw [← toExpr_map_plainly, h, toExpr_postorder]

/-! ## Variables -/

/-- **The variables of a sequence are those of its tree**, in the same order. -/
theorem names_eq_of_toExpr {ts : List Token} {e : Expr} (h : toExpr ts = .ok e) :
    names ts = e.occurrences := by
  have hplain : names (ts.map Token.plainly) = names ts := by
    rw [names, List.filterMap_map]
    exact congrArg (List.filterMap · ts) (funext fun t => by cases t <;> rfl)
  rw [← hplain, toExpr_eq_ok_iff.1 h, names_postorder]

theorem mem_names_iff {ts : List Token} {n : String} : n ∈ names ts ↔ .var n ∈ ts := by
  rw [names, List.mem_filterMap]
  constructor
  · rintro ⟨t, ht, hname⟩
    obtain rfl : t = .var n := by
      cases t <;> simp_all [Token.name?]
    exact ht
  · exact fun h => ⟨_, h, rfl⟩

/-- A variable occurs in the tree when it is **among the tokens**. -/
theorem mem_occurrences_iff {ts : List Token} {e : Expr} (h : toExpr ts = .ok e) {n : String} :
    n ∈ e.occurrences ↔ .var n ∈ ts := by
  rw [← names_eq_of_toExpr h, mem_names_iff]

end Postfix

end TruthTable
