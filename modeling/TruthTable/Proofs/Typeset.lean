import TruthTable.Proofs.RoundTrip

/-!
# Proofs/Typeset — typeset markup, read back

Typeset markup has a command for every sign of the input language but `+`, and braces for the
operand of a bar.  With the commands replaced by the signs, the bar by a negation in front of
parentheses, the markup is a text; it says as much of its tree as the printed text does.

* `Latex.read` — the replacements.
* `Latex.ReadsAs` — what a piece of markup is read as, in front of any other.
* `compile_readBack_toLatex` — the markup of a tree, read back, compiles to the tree with its chains
  nested to the left.
-/

namespace TruthTable

namespace Latex

/-! ## The replacements -/

/-- **Replaces the first entry of the table** that the text starts with, and goes on behind it; a
character that starts none stays. -/
def replaceAll (table : List (String × String)) : List Char → List Char
  | [] => []
  | c :: cs =>
    match table.find? fun p => p.1.toList.isPrefixOf (c :: cs) with
    | some p => p.2.toList ++ replaceAll table (cs.drop (p.1.toList.length - 1))
    | none => c :: replaceAll table cs
termination_by cs => cs.length
decreasing_by all_goals
  simp only [List.length_drop, List.length_cons]
  omega

/-- **What the markup stands for** in the input language. -/
def signs : List (String × String) :=
  [("\\left(", "("), ("\\right)", ")"), ("\\overline\x7b", "!("), ("\x7d", ")"),
    ("\\cdot", "*"), ("\\oplus", "^")]

/-- **The text that a piece of markup stands for.** -/
def read : List Char → List Char := replaceAll signs

/-- A character that **stands for itself**. -/
def plain (c : Char) : Bool := c != '\\' && c != '\x7d'

theorem read_nil : read [] = [] := by rw [read, replaceAll]

theorem plain_of_isNameChar {c : Char} (h : isNameChar c = true) : plain c = true := by
  rw [plain, Bool.and_eq_true, bne_iff_ne, bne_iff_ne]
  constructor
  · rintro rfl
    nomatch h
  · rintro rfl
    nomatch h

/-- Every entry starts with a character that does not stand for itself. -/
theorem exists_cons_of_mem_signs : ∀ p ∈ signs, ∃ d ds, p.1.toList = d :: ds ∧ plain d = false := by
  intro p hp
  simp only [signs, List.mem_cons, List.not_mem_nil, or_false] at hp
  rcases hp with rfl | rfl | rfl | rfl | rfl | rfl <;> exact ⟨_, _, rfl, rfl⟩

theorem read_cons_of_plain {c : Char} (hc : plain c = true) (cs : List Char) :
    read (c :: cs) = c :: read cs := by
  have hnone : (signs.find? fun p => p.1.toList.isPrefixOf (c :: cs)) = none := by
    refine List.find?_eq_none.2 fun p hp hstarts => ?_
    obtain ⟨d, ds, hkey, hd⟩ := exists_cons_of_mem_signs p hp
    rw [hkey, List.isPrefixOf_iff_prefix, List.cons_prefix_cons] at hstarts
    rw [hstarts.1, hc] at hd
    nomatch hd
  rw [read, replaceAll, hnone]

theorem read_append_of_plain {ds : List Char} (h : ∀ c ∈ ds, plain c = true) (cs : List Char) :
    read (ds ++ cs) = ds ++ read cs := by
  induction ds with
  | nil => rfl
  | cons d ds ih =>
    obtain ⟨hd, hds⟩ := List.forall_mem_cons.1 h
    rw [List.cons_append, read_cons_of_plain hd, ih hds, List.cons_append]

/-- **An entry of the table is replaced**, whatever stands behind it. -/
theorem read_of_mem_signs {command sign : String} (h : (command, sign) ∈ signs)
    (cs : List Char) : read (command.toList ++ cs) = sign.toList ++ read cs := by
  have hfind : (signs.find? fun p => p.1.toList.isPrefixOf (command.toList ++ cs)) =
      some (command, sign) := by
    simp only [signs, List.mem_cons, List.not_mem_nil, or_false, Prod.mk.injEq] at h
    rcases h with h | h | h | h | h | h <;> obtain ⟨rfl, rfl⟩ := h <;> rfl
  obtain ⟨d, ds, hkey, -⟩ := exists_cons_of_mem_signs _ h
  rw [hkey, List.cons_append] at hfind ⊢
  rw [read, replaceAll, hfind]
  simp [hkey]

/-- A connective in markup has a space on either side. -/
theorem read_command (c : Connective) (cs : List Char) :
    read (' ' :: (c.command.toList ++ ' ' :: cs)) =
      ' ' :: (c.sign.toList ++ ' ' :: read cs) := by
  have hspace (cs : List Char) : read (' ' :: cs) = ' ' :: read cs := read_cons_of_plain rfl cs
  have hcommand : read (c.command.toList ++ ' ' :: cs) = c.sign.toList ++ read (' ' :: cs) := by
    cases c with
    | and => exact read_of_mem_signs (by decide : ("\\cdot", "*") ∈ signs) _
    | xor => exact read_of_mem_signs (by decide : ("\\oplus", "^") ∈ signs) _
    | or => exact read_cons_of_plain rfl _
  rw [hspace, hcommand, hspace]

/-! ## Pieces of markup -/

/-- **What a piece of markup is read as**, in front of any other, unless a name runs on into it. -/
def ReadsAs (s : String) (ts : List Token) : Prop :=
  ∀ cs us, EndsName (read cs) → Lexes (read cs) us → Lexes (read (s.toList ++ cs)) (ts ++ us)

variable {s l r : String} {ts us : List Token}

theorem readsAs_identifier {n : String} (h : IsIdentifier n) : ReadsAs n [.var n] := by
  intro cs us hends hlexes
  rw [read_append_of_plain fun c hc => plain_of_isNameChar (h.forall_isNameChar c hc)]
  exact .identifier h hends hlexes

theorem readsAs_const (b : Bool) : ReadsAs (if b then "1" else "0") [.const b] := by
  intro cs us _ hlexes
  cases b with
  | false => exact (read_cons_of_plain (c := '0') rfl cs) ▸ .sign rfl hlexes
  | true => exact (read_cons_of_plain (c := '1') rfl cs) ▸ .sign rfl hlexes

/-- Markup in front of what is read as a closing parenthesis. -/
theorem ReadsAs.close {back : String} (h : ReadsAs s ts) (hback : (back, ")") ∈ signs)
    {cs : List Char} (hlexes : Lexes (read cs) us) :
    Lexes (read (s.toList ++ (back.toList ++ cs))) (ts ++ .mark .rparen :: us) := by
  have hclose : read (back.toList ++ cs) = ')' :: read cs := read_of_mem_signs hback cs
  refine h _ _ ?_ ?_
  · exact hclose ▸ endsName_cons rfl _
  · exact hclose ▸ .sign rfl hlexes

/-- Grown parentheses are read as parentheses. -/
theorem ReadsAs.group (h : ReadsAs s ts) :
    ReadsAs ("\\left(" ++ s ++ "\\right)") (parens true ts) := by
  intro cs us hends hlexes
  have hopen (cs : List Char) : read ("\\left(".toList ++ cs) = '(' :: read cs :=
    read_of_mem_signs (by decide : ("\\left(", "(") ∈ signs) cs
  have hinner := h.close (by decide : ("\\right)", ")") ∈ signs) hlexes
  simp only [String.toList_append, List.append_assoc, hopen, parens, if_true, List.cons_append,
    List.nil_append]
  exact .sign rfl hinner

/-- A bar is read as a negation in front of parentheses. -/
theorem ReadsAs.bar (h : ReadsAs s ts) :
    ReadsAs ("\\overline\x7b" ++ s ++ "\x7d") (.op .not true :: parens true ts) := by
  intro cs us hends hlexes
  have hopen (cs : List Char) : read ("\\overline\x7b".toList ++ cs) = '!' :: '(' :: read cs :=
    read_of_mem_signs (by decide : ("\\overline\x7b", "!(") ∈ signs) cs
  have hinner := h.close (by decide : ("\x7d", ")") ∈ signs) hlexes
  simp only [String.toList_append, List.append_assoc, hopen, parens, if_true, List.cons_append,
    List.nil_append]
  exact .sign rfl (.sign rfl hinner)

/-- A command is read as the connective between its operands. -/
theorem ReadsAs.join (hl : ReadsAs l ts) (hr : ReadsAs r us) (c : Connective) :
    ReadsAs (l ++ " " ++ c.command ++ " " ++ r) (ts ++ .plain (.conn c) :: us) := by
  intro cs vs hends hlexes
  have hright := hr cs vs hends hlexes
  obtain ⟨-, hsign⟩ := (Lexes.blank (c := ' ') rfl hright).sign_conn c
  have hspace : " ".toList = [' '] := rfl
  have hread := read_command c (r.toList ++ cs)
  simp only [String.toList_append, List.append_assoc, hspace, List.cons_append]
  -- The space in front of the command keeps a name in the left operand from running on.
  refine hl _ _ ?_ ?_
  · exact hread ▸ endsName_cons rfl _
  · exact hread ▸ .blank rfl hsign

/-- **The markup of a tree is read as its stream**, with bars for negations; it stands in
parentheses where it binds looser than what is around it. -/
theorem readsAs_toLatex : ∀ {e : Expr} {outer : Nat}, outer ≤ Operator.not.precedence →
    (∀ n ∈ e.occurrences, IsIdentifier n) →
      ReadsAs (e.toLatex outer) (parens (e.precedence < outer) (e.stream .bar))
  | .var n, outer, houter, h => by
    have hloose : ¬ (Expr.var n).precedence < outer := Nat.not_lt.2 (Nat.le_succ_of_le houter)
    rw [decide_eq_false hloose]
    exact readsAs_identifier (h n (List.mem_singleton_self n))
  | .const b, outer, houter, _ => by
    have hloose : ¬ (Expr.const b).precedence < outer := Nat.not_lt.2 (Nat.le_succ_of_le houter)
    rw [decide_eq_false hloose]
    exact readsAs_const b
  | .not e, outer, houter, h => by
    have he : ReadsAs (e.toLatex 0) (e.stream .bar) :=
      @readsAs_toLatex e 0 (Nat.zero_le _) h
    have hloose : ¬ (Expr.not e).precedence < outer := Nat.not_lt.2 houter
    rw [decide_eq_false hloose]
    exact he.bar
  | .bin c l r, outer, houter, h => by
    obtain ⟨hl, hr⟩ := List.forall_mem_append.1 h
    have hc : c.precedence ≤ Operator.not.precedence :=
      Nat.le_of_lt (Operator.precedence_conn_lt_not c)
    have hbody := (readsAs_toLatex hc hl).join (readsAs_toLatex hc hr) c
    rw [Expr.toLatex, Expr.precedence]
    by_cases hloose : c.precedence < outer
    · rw [decide_eq_true hloose, if_pos (Int.ofNat_lt.2 hloose)]
      exact hbody.group
    · rw [decide_eq_false hloose, if_neg (fun h => hloose (Int.ofNat_lt.1 h))]
      exact hbody

/-! ## The markup of a tree -/

open Relation

/-- A piece of markup, read back as a text. -/
def readBack (s : String) : String := String.ofList (read s.toList)

/-- **The markup of a tree, read back, spells the tree** with its chains nested to the left. -/
theorem spells_readBack_toLatex {e : Expr} (h : ∀ n ∈ e.occurrences, IsIdentifier n) :
    Formula.Spells (readBack (e.toLatex 0)) e.leftNest := by
  have hreads : ReadsAs (e.toLatex 0) (e.stream .bar) :=
    @readsAs_toLatex e 0 (Nat.zero_le _) h
  have hlexes := hreads [] []
  rw [List.append_nil, List.append_nil, read_nil] at hlexes
  refine Formula.spells_of_derives ?_ (e.derives_stream .bar)
  rw [readBack, String.toList_ofList]
  exact hlexes endsName_nil .nil

/-- **The markup of a tree, read back, compiles to the tree**, if its variables are identifiers
within the digit limit: every chain of one connective is turned to the left, by rotations, and
nothing else changes.  So trees share their markup exactly where rotations make the same of them,
and then they have the same variables and the same value. -/
theorem compile_readBack_toLatex {e : Expr} (hname : ∀ n ∈ e.occurrences, IsIdentifier n) :
    ((∀ n ∈ e.occurrences, VarName.WithinLimit n) →
      ∃ f, Formula.compile (readBack (e.toLatex 0)) = .ok f ∧
        f.tree = e.leftNest ∧ ReflTransGen Expr.Rotates e f.tree ∧ f.tree.LeftNested) ∧
    ∀ d : Expr, (∀ n ∈ d.occurrences, IsIdentifier n) →
      (d.toLatex 0 = e.toLatex 0 ↔ d.leftNest = e.leftNest) ∧
      (d.toLatex 0 = e.toLatex 0 → d.occurrences = e.occurrences ∧ ∀ v, d.eval v = e.eval v) := by
  have hspells := spells_readBack_toLatex hname
  constructor
  · intro hlimit
    obtain ⟨f, hf, htree, -⟩ := hspells.exists_compile_leftNest hlimit
    exact ⟨f, hf, htree⟩
  · intro d hd
    have hnest (hlatex : d.toLatex 0 = e.toLatex 0) : d.leftNest = e.leftNest :=
      (hlatex ▸ spells_readBack_toLatex hd).unique hspells
    refine ⟨⟨hnest, fun h => ?_⟩, fun hlatex => ⟨?_, fun v => ?_⟩⟩
    · rw [← Expr.toLatex_leftNest d, h, Expr.toLatex_leftNest]
    · rw [← Expr.occurrences_leftNest d, hnest hlatex, Expr.occurrences_leftNest]
    · rw [← Expr.eval_leftNest v d, hnest hlatex, Expr.eval_leftNest]

/-- Grown parentheses around a sum, a bar over a chain nested to the right, and a product nested to
the right. -/
theorem compile_readBack_toLatex_grown :
    let d : Expr := .bin .and (.bin .or (.var "A")
      (.not (.bin .xor (.var "B_1") (.bin .xor (.const true) (.var "c")))))
      (.bin .and (.var "A") (.var "c"))
    let e : Expr := .bin .and (.bin .and (.bin .or (.var "A")
      (.not (.bin .xor (.bin .xor (.var "B_1") (.const true)) (.var "c")))) (.var "A")) (.var "c")
    d.toLatex 0 =
        "\\left(A + \\overline\x7bB_1 \\oplus 1 \\oplus c\x7d\\right) \\cdot A \\cdot c" ∧
      readBack (d.toLatex 0) = "(A + !(B_1 ^ 1 ^ c)) * A * c" ∧
      (∃ f, Formula.compile (readBack (d.toLatex 0)) = .ok f ∧ f.tree = e) ∧
      ∀ v, e.eval v = d.eval v := by
  intro d e
  have hd : ∀ n ∈ d.occurrences, IsIdentifier n := by decide +kernel
  have he : ∀ n ∈ e.occurrences, IsIdentifier n := by decide +kernel
  have hlimit : ∀ n ∈ d.occurrences, VarName.WithinLimit n := by decide +kernel
  obtain ⟨f, hf, htree, -⟩ := (compile_readBack_toLatex hd).1 hlimit
  obtain ⟨-, heval⟩ := ((compile_readBack_toLatex hd).2 e he).2 (by decide +kernel)
  exact ⟨by decide +kernel, by decide +kernel, ⟨f, hf, htree⟩, heval⟩

end Latex

end TruthTable
