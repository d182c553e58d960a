import TruthTable.Proofs.Arguments

/-!
# Proofs/Arguments/Path — a path to draw to among the arguments

A path is given in one argument or in two, and a double dash in its place blots it out.  It leaves
the path behind and nothing else, unless another path comes later.

* `classify_joined` — a value that an equals sign joins to its option.
* `GivesPath` — the arguments that give a path; `Drawn` — what they change.
* `parse_texts`, `parse_option_texts` — two expressions, and one option before them.
-/

namespace TruthTable.Arguments

variable {path text : String} {added : List String}

/-! ## Values joined to options -/

/-- No spelling of an option holds an equals sign. -/
theorem ofName?_of_mem (h : '=' ∈ text.toList) : Opt.ofName? text = none := by
  have hnames : Opt.spellings.all (fun p => !p.1.toList.contains '=') = true := by decide +kernel
  rw [Opt.ofName?, List.lookup_eq_none_iff]
  intro p hp
  have hp' := List.all_eq_true.1 hnames p hp
  rw [bne_iff_ne]
  rintro rfl
  rw [List.contains_iff_mem.2 h] at hp'
  nomatch hp'

theorem splitEquals_append {name : String} (h : '=' ∉ name.toList) (value : String) :
    splitEquals (name ++ "=" ++ value) = (name, some value) := by
  have hsplit : (name ++ "=" ++ value).toList = name.toList ++ '=' :: value.toList := by
    simp only [String.toList_append, List.append_assoc]
    rfl
  have hne : ∀ c ∈ name.toList, decide (c ≠ '=') = true := fun c hc =>
    decide_eq_true fun heq => h (heq ▸ hc)
  simp only [splitEquals, hsplit, List.dropWhile_append_of_pos hne,
    List.takeWhile_append_of_pos hne]
  simp

/-- **A value is joined to a long option** by an equals sign. -/
theorem classify_joined {o : Opt} {name : String} (hdash : name.startsWith "-" = true)
    (hname : Opt.ofName? name = some o) (value : String) :
    classify (name ++ "=" ++ value) = .ok (.option o name (some value)) := by
  have hmem : '=' ∈ (name ++ "=" ++ value).toList := by
    simp
  have hequals : '=' ∉ name.toList := fun h => by
    rw [ofName?_of_mem h] at hname
    nomatch hname
  have hdash' : (name ++ "=" ++ value).startsWith "-" = true := by
    rw [String.startsWith_string_iff] at hdash ⊢
    rw [String.append_assoc, String.toList_append]
    exact hdash.trans (List.prefix_append _ _)
  have hne : name ++ "=" ++ value ≠ "-" := fun h => by
    rw [h] at hmem
    revert hmem
    decide
  rw [classify, hdash', ofName?_of_mem hmem, if_neg hne, splitEquals_append hequals, hname]
  rfl

/-- An option that takes a value takes what is joined to it. -/
theorem spelled_of_takesValue {o : Opt} (h : o.takesValue = true) (short : Bool) :
    ∀ cs, spelled o short cs = .ok { last := o, value := some (String.ofList cs) }
  | [] => by rw [spelled, if_pos h]
  | c :: cs => by rw [spelled, if_pos h]

/-! ## The path -/

/-- **What a path to draw to leaves behind**; a double dash blots it out. -/
def drawTo (path : String) : Change := { dot := some (if path = "--" then none else some path) }

theorem apply_dot (a : Arguments) (value : Option String) :
    apply a { last := .dot, value } (some path) = .ok (frame a.expressions (drawTo path) a) := by
  have hflags : apply a { last := .dot, value } (some path) =
      if path = "--" then .ok (a.blot .dot) else a.set path .dot := rfl
  have hframe : frame a.expressions (drawTo path) a =
      { a with dot := if path = "--" then none else some path } := by
    rw [frame, drawTo, Bool.or_false]
    rfl
  rw [hflags, hframe]
  split <;> rfl

/-- **Arguments that give a path to draw to**, in one or in two. -/
inductive GivesPath (path : String) : List String → Prop
  | joined : GivesPath path ["--dot=" ++ path]
  | apart : GivesPath path ["--dot", path]

theorem GivesPath.adds (h : GivesPath path added) : Adds (drawTo path) added := by
  have hname : Opt.ofName? "--dot" = some .dot := by decide +kernel
  cases h with
  | joined =>
    have hclass := classify_joined (by decide +kernel) hname path
    refine .single hclass (spelled_of_takesValue rfl _ _) Bool.false_ne_true fun a => ?_
    rw [String.ofList_toList]
    exact apply_dot a _
  | apart =>
    have hclass : classify "--dot" = .ok (.option .dot "--dot" none) := by decide +kernel
    exact .pair hclass rfl rfl fun a => apply_dot a _

/-- **Arguments with a path to draw to**, or with none, and with texts for some of the expressions
that had none. -/
structure Drawn (path : String) (a a' : Arguments) : Prop where
  eq_of : a' = { a with expressions := a'.expressions, dot := a'.dot }
  dot_eq : a'.dot = none ∨ a'.dot = some path
  filled : Filled a.expressions a'.expressions

/-- **Where a path is given to the command**, it is drawn to if nothing else blots it out. -/
theorem GivesPath.drawn {before after : List String} {a a' : Arguments} (h : GivesPath path added)
    (hdot : a.dot = none) (hargs : parse (before ++ after) = .ok a) (hbefore : "--" ∉ before)
    (hargs' : parse (before ++ (added ++ after)) = .ok a') : Drawn path a a' := by
  obtain ⟨hfilled, c, hleaves, ha'⟩ := parse_insert h.adds hargs hbefore hargs'
  rw [ha']
  rcases hleaves with rfl | rfl
  · refine ⟨by simp [frame, drawTo], ?_, ha' ▸ hfilled⟩
    by_cases hpath : path = "--"
    · exact .inl (if_pos hpath)
    · exact .inr (if_neg hpath)
  · exact ⟨by simp [frame, drawTo, Change.undrawn], .inl hdot, ha' ▸ hfilled⟩

/-! ## Two expressions and no more -/

variable {text1 text2 : String} {w : Walk} {c : Change}

/-- **A text that does not start with a dash** is no option. -/
theorem classify_plain (h : text.startsWith "-" = false) : classify text = .ok (.plain text) := by
  rw [classify, h]
  rfl

theorem ne_separator_of_startsWith (h : text.startsWith "-" = false) : text ≠ "--" := by
  rintro rfl
  exact absurd h (by decide +kernel)

theorem classifyAll_texts (h1 : text1.startsWith "-" = false) (h2 : text2.startsWith "-" = false) :
    classifyAll [text1, text2] = .ok [.plain text1, .plain text2] := by
  rw [classifyAll_cons (ne_separator_of_startsWith h1), classify_plain h1,
    classifyAll_cons (ne_separator_of_startsWith h2), classify_plain h2]
  rfl

/-- The walk takes two texts for the expressions. -/
theorem goes_texts (h1 : text1.startsWith "-" = false) (h2 : text2.startsWith "-" = false)
    (hw : w.arguments.expressions = []) : ∃ w', Goes w [.plain text1, .plain text2] w' ∧
      w'.arguments = { w.arguments with expressions := [some text1, some text2] } ∧
      w'.extras = w.extras := by
  have hne1 := ne_separator_of_startsWith h1
  have hne2 := ne_separator_of_startsWith h2
  exact ⟨_, .plain (.plain .done), by simp [Walk.plain, arity, hw, hne1, hne2],
    by simp [Walk.plain, arity, hw]⟩

theorem parse_texts (h1 : text1.startsWith "-" = false) (h2 : text2.startsWith "-" = false) :
    parse [text1, text2] = .ok { expressions := [some text1, some text2] } := by
  obtain ⟨w, hgoes, hargs, hextras⟩ := goes_texts h1 h2 (w := {}) rfl
  exact parse_eq_ok_iff.2 ⟨_, w, classifyAll_texts h1 h2, hgoes,
    by rw [hargs]; exact Nat.le_refl _, hextras, hargs⟩

/-- An option before two texts. -/
theorem parse_option_texts (hadds : Adds c [text]) (h1 : text1.startsWith "-" = false)
    (h2 : text2.startsWith "-" = false) :
    parse [text, text1, text2] = .ok (frame [some text1, some text2] c {}) := by
  cases hadds with
  | single hclass hs hvalue ha =>
    obtain ⟨w, hgoes, hargs, hextras⟩ := goes_texts h1 h2 (w := ({} : Walk).framed c) rfl
    have hclasses := classifyAll_option hclass [text1, text2]
    rw [classifyAll_texts h1 h2] at hclasses
    exact parse_eq_ok_iff.2 ⟨_, w, hclasses, .option hs (.own hvalue) (ha _) hgoes,
      by rw [hargs]; exact Nat.le_refl _, hextras, hargs⟩

end TruthTable.Arguments
