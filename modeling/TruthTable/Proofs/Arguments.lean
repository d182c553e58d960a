import TruthTable.Options
import TruthTable.Proofs.Outcome
import Mathlib.Data.List.Forall2

/-!
# Proofs/Arguments — where an option stands does not matter

The walk along the arguments is a sequence of steps, each of which reads one argument, or an option
together with its value.  One more option is one more step, and it leaves nothing behind but its
effect, unless it cuts off an option from its value or an expression from a double dash.  Then the
command line is refused, or an expression that had no text is found one.

* `Takes` — where an option gets its value from.
* `Goes` — the walks that go through, step by step; `walk_eq_ok_iff` says that these are all.
* `Change` — what one more option leaves behind; `Adds` — the arguments that are such an option.
* `Walk.Follows` — a walk that is ahead of another one by a change alone.
* `parse_cons`, `parse_insert` — one more option, put first and put anywhere.
-/

namespace TruthTable

/-! ## Single arguments -/

/-- No single argument is the double dash. -/
theorem classify_ne_separator (text : String) : classify text ≠ .ok .separator := by
  fun_cases classify text <;> simp [*]

theorem classifyAll_cons {text : String} (h : text ≠ "--") (rest : List String) :
    classifyAll (text :: rest) =
      classify text >>= fun c => classifyAll rest >>= fun cs => .ok (c :: cs) := by
  rw [classifyAll, if_neg h]
  rfl

/-- **Arguments before any double dash are what they are**, whatever comes after them. -/
theorem exists_classes {before after : List String} {classes : List Argument}
    (hbefore : "--" ∉ before) (h : classifyAll (before ++ after) = .ok classes) :
    ∃ cs, .separator ∉ cs ∧
      ∀ rest, classifyAll (before ++ rest) = (cs ++ ·) <$> classifyAll rest := by
  induction before generalizing classes with
  | nil => exact ⟨[], List.not_mem_nil, fun rest => by cases h : classifyAll rest <;> exact h⟩
  | cons text before ih =>
    obtain ⟨htext, hbefore⟩ := not_or.1 (mt List.mem_cons.2 hbefore)
    rw [List.cons_append, classifyAll_cons (Ne.symm htext), bind_eq_ok_iff] at h
    obtain ⟨c, hc, h⟩ := h
    obtain ⟨_, h, _⟩ := bind_eq_ok_iff.1 h
    obtain ⟨cs, hcs, heq⟩ := ih hbefore h
    have hsep : c ≠ .separator := fun h => classify_ne_separator text (h ▸ hc)
    refine ⟨c :: cs, ?_, fun rest => ?_⟩
    · exact List.not_mem_cons_of_ne_of_not_mem hsep.symm hcs
    · rw [List.cons_append, classifyAll_cons (Ne.symm htext), hc, heq]
      cases classifyAll rest <;> rfl

namespace Arguments

/-! ## Steps of the walk -/

/-- **The value of the last option** of an argument, and the arguments that are left after it. -/
inductive Takes (s : Spelled) : List Argument → Option String → List Argument → Prop
  | own {rest} (h : ¬ (s.last.takesValue && s.value.isNone) = true) : Takes s rest s.value rest
  | next {text rest} (h : (s.last.takesValue && s.value.isNone) = true) :
    Takes s (.plain text :: rest) (some text) rest

/-- **The walk goes through** along the arguments. -/
inductive Goes : Walk → List Argument → Walk → Prop
  | done {w} : Goes w [] w
  | plain {w text rest w'} (h : Goes (w.plain text) rest w') : Goes w (.plain text :: rest) w'
  | separator {w rest w'} (h : Goes (w.separator rest.isEmpty) rest w') :
    Goes w (.separator :: rest) w'
  | unknown {w : Walk} {text rest w'}
    (h : Goes { w with extras := w.extras ++ [text], taken := false } rest w') :
    Goes w (.unknown text :: rest) w'
  | option {w o name tail s rest value rest' a w'} (hs : spelledBy o name tail = .ok s)
    (ht : Takes s rest value rest') (ha : w.arguments.apply s value = .ok a)
    (h : Goes (w.optionsTaken a) rest' w') : Goes w (.option o name tail :: rest) w'

variable {a a' : Arguments} {w w' v v' : Walk} {o : Opt} {name : String} {text : String}
  {tail value : Option String} {s : Spelled} {as rest rest' : List Argument}

/-- An option takes effect with its value, and the walk goes on behind it. -/
theorem walk_option (hs : spelledBy o name tail = .ok s) (ht : Takes s rest value rest') :
    walk w (.option o name tail :: rest) =
      w.arguments.apply s value >>= fun a => walk (w.optionsTaken a) rest' := by
  rw [walk, hs]
  cases ht with
  | own h =>
    simp only [if_neg h]
    cases w.arguments.apply s s.value <;> rfl
  | next h =>
    simp only [if_pos h]
    cases w.arguments.apply s (some _) <;> rfl

/-- **The walks that go through** are those that end in a state. -/
theorem walk_eq_ok_iff : walk w as = .ok w' ↔ Goes w as w' := by
  constructor
  · intro h
    fun_induction walk w as with
    | case1 => exact Except.ok.inj h ▸ .done
    | case2 w text rest ih => exact .plain (ih h)
    | case3 w rest ih => exact .separator (ih h)
    | case4 w text rest ih => exact .unknown (ih h)
    | case5 | case6 | case8 | case9 => nomatch h
    | case7 w o name tail s hs hvalue text rest a ha ih => exact .option hs (.next hvalue) ha (ih h)
    | case10 w o name tail rest s hs hvalue a ha ih => exact .option hs (.own hvalue) ha (ih h)
  · intro h
    induction h with
    | done => rfl
    | plain _ ih | separator _ ih | unknown _ ih => rw [walk, ih]
    | option hs ht ha _ ih => rw [walk_option hs ht, ha]; exact ih

/-- An option that comes later is no value, so **what an option takes stands before it**. -/
theorem Takes.exists_append {cs ds : List Argument}
    (ht : Takes s (cs ++ .option o name tail :: ds) value rest') :
    ∃ cs', cs' <:+ cs ∧ rest' = cs' ++ .option o name tail :: ds ∧
      ∀ as, Takes s (cs ++ as) value (cs' ++ as) := by
  cases cs with
  | nil =>
    cases ht with
    | own h => exact ⟨[], List.suffix_rfl, rfl, fun _ => .own h⟩
  | cons c cs =>
    cases ht with
    | own h => exact ⟨c :: cs, List.suffix_rfl, rfl, fun _ => .own h⟩
    | next h => exact ⟨cs, List.suffix_cons _ cs, rfl, fun _ => .next h⟩

/-! ## The effect of options -/

/-- **What one more option leaves behind**: the flag for the row numbers, or a path to draw to,
which may be none. -/
structure Change where
  minterms : Bool := false
  dot : Option (Option String) := none

/-- The change without its path. -/
def Change.undrawn (c : Change) : Change := { c with dot := none }

/-- **What is left of a change**: all of it, or all but the path, if another path comes later. -/
def Change.Leaves (c c' : Change) : Prop := c' = c ∨ c' = c.undrawn

/-- **Arguments with other expressions** and a change. -/
def frame (es : List (Option String)) (c : Change) (a : Arguments) : Arguments :=
  { a with
    expressions := es
    minterms := a.minterms || c.minterms
    dot := c.dot.getD a.dot }

variable {es : List (Option String)} {c c' d : Change}

theorem Change.leaves_self (c : Change) : c.Leaves c := .inl rfl

theorem Change.Leaves.trans (h : c.Leaves c') (h' : c'.Leaves d) : c.Leaves d := by
  rcases h with rfl | rfl
  · exact h'
  · rcases h' with rfl | rfl
    · exact .inr rfl
    · exact .inr rfl

theorem frame_none (a : Arguments) : frame a.expressions {} a = a := by
  rw [frame, Bool.or_false]
  rfl

theorem flag_frame (a : Arguments) : ∀ o, (frame es c a).flag o = frame es c <$> a.flag o
  | .help | .diff | .maxVars | .config | .markup | .dot | .verbose | .minterms => rfl

theorem foldlM_flag_frame : ∀ (os : List Opt) (a : Arguments),
    os.foldlM flag (frame es c a) = frame es c <$> os.foldlM flag a
  | [], _ => rfl
  | o :: os, a => by
    rw [List.foldlM_cons, List.foldlM_cons, flag_frame]
    cases a.flag o with
    | error e => rfl
    | ok b => exact foldlM_flag_frame os b

/-- What an option with a value leaves of a change. -/
def Change.behind (c : Change) : Opt → Change
  | .dot => c.undrawn
  | _ => c

theorem Change.leaves_behind (c : Change) : ∀ o, c.Leaves (c.behind o)
  | .dot => .inr rfl
  | .help | .diff | .maxVars | .config | .markup | .verbose | .minterms => .inl rfl

theorem set_frame (a : Arguments) (text : String) : ∀ o,
    (frame es c a).set text o = frame es (c.behind o) <$> a.set text o
  | .maxVars => by
    simp only [set]
    cases Numeral.readInt? text.toList <;> rfl
  | .markup => by
    simp only [set]
    split <;> rfl
  | .config | .dot | .help | .diff | .minterms | .verbose => rfl

theorem blot_frame (a : Arguments) : ∀ o,
    (frame es c a).blot o = frame es (c.behind o) (a.blot o)
  | .help | .diff | .maxVars | .config | .markup | .dot | .verbose | .minterms => rfl

/-- **Options see neither the expressions nor a change**, and leave them alone, another path
apart. -/
theorem apply_frame (c : Change) (s : Spelled) (value : Option String) : ∃ c', c.Leaves c' ∧
    ∀ es a, (frame es c a).apply s value = frame es c' <$> a.apply s value := by
  cases value with
  | none =>
    refine ⟨c, c.leaves_self, fun es a => ?_⟩
    rw [apply, apply, foldlM_flag_frame]
    cases s.flags.foldlM flag a with
    | error e => rfl
    | ok b => exact flag_frame b s.last
  | some text =>
    refine ⟨c.behind s.last, c.leaves_behind s.last, fun es a => ?_⟩
    rw [apply, apply, foldlM_flag_frame]
    cases s.flags.foldlM flag a with
    | error e => rfl
    | ok b =>
      by_cases htext : text = "--"
      · simp only [htext, bind, Except.bind, Functor.map, Except.map, if_pos, blot_frame]
        rfl
      · simp only [bind, Except.bind, Functor.map, Except.map, if_neg htext, set_frame]

/-- Options leave the expressions alone. -/
theorem apply_expressions (h : a.apply s value = .ok a') : a'.expressions = a.expressions := by
  obtain ⟨c, -, hframe⟩ := apply_frame {} s value
  rw [← frame_none a, hframe, map_eq_ok_iff] at h
  obtain ⟨b, -, rfl⟩ := h
  rfl

/-- The arguments with the flag for the row numbers set. -/
def withMinterms (a : Arguments) : Arguments := { a with minterms := true }

theorem eq_withMinterms (h : ({ minterms := true } : Change).Leaves c)
    (ha : a' = frame a.expressions c a) : a' = a.withMinterms := by
  have hc : c = { minterms := true } := by
    rcases h with rfl | rfl <;> rfl
  rw [ha, hc, frame, Bool.or_true]
  rfl

/-! ## What a walk keeps -/

/-- **No argument that nothing takes is taken back.** -/
theorem Goes.extras_subset (h : Goes w as w') : w.extras ⊆ w'.extras := by
  induction h with
  | done => exact List.Subset.refl _
  | @plain w text _ _ _ ih =>
    refine List.Subset.trans ?_ ih
    fun_cases w.plain text
    · exact List.Subset.refl _
    · exact List.subset_append_left _ _
  | @separator w rest _ _ ih =>
    refine List.Subset.trans ?_ ih
    fun_cases w.separator rest.isEmpty <;> simp
  | unknown _ ih => exact List.Subset.trans (List.subset_append_left _ _) ih
  | option _ _ _ _ ih => exact ih

/-- The step of an option whose effect is known. -/
theorem Goes.behind_option (hs : spelledBy o name tail = .ok s) (ht : Takes s rest value rest')
    (ha : w.arguments.apply s value = .ok a) (h : Goes w (.option o name tail :: rest) w') :
    Goes (w.optionsTaken a) rest' w' := by
  rw [← walk_eq_ok_iff, walk_option hs ht, ha] at h
  exact walk_eq_ok_iff.1 h

/-! ## One more option -/

/-- **Expressions that may have been found texts for**: each is the same, or it had none. -/
def Filled : List (Option String) → List (Option String) → Prop :=
  List.Forall₂ fun x y => y = x ∨ x = none

theorem Filled.refl : ∀ es, Filled es es
  | [] => .nil
  | _ :: es => .cons (.inl rfl) (refl es)

theorem Filled.append {es es' fs fs' : List (Option String)} (h : Filled es es')
    (h' : Filled fs fs') : Filled (es ++ fs) (es' ++ fs') :=
  List.rel_append h h'

/-- Where no text is missing, none is found. -/
theorem Filled.eq {es es' : List (Option String)} (h : Filled es es') (hnone : none ∉ es) :
    es' = es := by
  induction h with
  | nil => rfl
  | cons hxy _ ih =>
    obtain ⟨hx, hes⟩ := not_or.1 (mt List.mem_cons.2 hnone)
    rw [ih hes, hxy.resolve_right (Ne.symm hx)]

/-- A text that was there is kept. -/
theorem Filled.exists_cons {text : String} {rest es : List (Option String)}
    (h : Filled (some text :: rest) es) : ∃ rest', es = some text :: rest' ∧ Filled rest rest' := by
  cases h with
  | cons htext hrest => exact ⟨_, by rw [htext.resolve_right (Option.some_ne_none _)], hrest⟩

/-- **A walk is ahead of another one by a change**, and by that alone: it may only have forgotten
that an expression came before, and it may hold the next double dash for an opening one, and so find
a text for an expression. -/
structure Walk.Follows (c : Change) (v w : Walk) : Prop where
  filled : Filled w.arguments.expressions v.arguments.expressions
  framed : ∃ c', c.Leaves c' ∧ v.arguments = frame v.arguments.expressions c' w.arguments
  extras_eq : v.extras = w.extras
  taken_of : v.taken = true → w.taken = true
  opened_of : w.opened = true → v.opened = true

namespace Walk.Follows

/-- An expression is taken by both walks alike, or one of them finds no text for it. -/
theorem plain (h : v.Follows c w) (text : String) : (v.plain text).Follows c (w.plain text) := by
  obtain ⟨hfilled, ⟨c', hleaves, hframed⟩, hextras, htaken, hopened⟩ := h
  have hlength := hfilled.length_eq
  by_cases hlt : w.arguments.expressions.length < arity
  · have hvalue : (if decide (text = "--") && !v.opened then none else some text) =
        (if decide (text = "--") && !w.opened then none else some text) ∨
        (if decide (text = "--") && !w.opened then none else some text) = none := by
      by_cases htext : text = "--"
      · cases hw : w.opened with
        | true => exact .inl (by rw [hopened hw])
        | false => exact .inr (by rw [htext]; rfl)
      · exact .inl (by simp only [htext, decide_false, Bool.false_and])
    rw [Walk.plain, Walk.plain, if_pos hlt, if_pos (hlength ▸ hlt)]
    refine ⟨hfilled.append (.cons hvalue .nil), ⟨c', hleaves, ?_⟩, hextras, fun _ => rfl,
      fun h => (nomatch h)⟩
    rw [hframed]
    rfl
  · rw [Walk.plain, Walk.plain, if_neg hlt, if_neg (hlength ▸ hlt), hextras]
    exact ⟨hfilled, ⟨c', hleaves, hframed⟩, rfl, fun h => (nomatch h), hopened⟩

/-- A double dash is passed by both walks, unless it is left over where the expression before it is
forgotten. -/
theorem separator (h : v.Follows c w) (isLast : Bool) (hnil : (v.separator isLast).extras = []) :
    (v.separator isLast).Follows c (w.separator isLast) := by
  obtain ⟨hfilled, hframed, hextras, htaken, hopened⟩ := h
  cases hv : v.taken with
  | true =>
    have hvsep : v.separator isLast = v := if_pos hv
    have hwsep : w.separator isLast = w := if_pos (htaken hv)
    rw [hvsep, hwsep]
    exact ⟨hfilled, hframed, hextras, htaken, hopened⟩
  | false =>
    have hvsep : v.separator isLast =
        if v.arguments.expressions.length < arity && !isLast then { v with opened := true }
        else { v with extras := v.extras ++ ["--"] } := if_neg (hv ▸ Bool.false_ne_true)
    split at hvsep
    · rename_i hopens
      have hlost (h : v.taken = true) : w.taken = true := absurd h (hv ▸ Bool.false_ne_true)
      rw [hvsep, Walk.separator]
      rw [← hfilled.length_eq] at hopens
      split
      · exact ⟨hfilled, hframed, hextras, hlost, fun _ => rfl⟩
      · exact ⟨hfilled, hframed, hextras, hlost, fun _ => rfl⟩
    · rw [hvsep] at hnil
      exact absurd hnil (List.append_ne_nil_of_right_ne_nil _ (List.cons_ne_nil _ _))

/-- **A walk stays ahead by a change alone** if it leaves no argument over. -/
theorem goes (h : Goes w as w') (hf : v.Follows c w) (hv : Goes v as v')
    (hextras : v'.extras = []) : v'.Follows c w' := by
  -- along the other walk: that this one leaves nothing over is known of its last state only, and
  -- goes back to every state before by `Goes.extras_subset`
  induction h generalizing v with
  | done =>
    cases hv
    exact hf
  | plain h ih =>
    cases hv with
    | plain hv => exact ih (hf.plain _) hv
  | separator h ih =>
    cases hv with
    | separator hv => exact ih (hf.separator _ (List.subset_nil.1 (hextras ▸ hv.extras_subset))) hv
  | unknown h ih =>
    cases hv with
    | unknown hv =>
      refine ih ?_ hv
      exact ⟨hf.filled, hf.framed, congrArg (· ++ [_]) hf.extras_eq, fun h => (nomatch h),
        hf.opened_of⟩
  | @option w _ _ _ s _ value _ a _ hs ht ha h ih =>
    obtain ⟨c', hleaves, hframed⟩ := hf.framed
    obtain ⟨c'', hleaves', happly⟩ := apply_frame c' s value
    have ha' : v.arguments.apply s value = .ok (frame v.arguments.expressions c'' a) := by
      rw [hframed, happly, ha]
      rfl
    have hfilled := hf.filled
    rw [← apply_expressions ha] at hfilled
    have hf' : (v.optionsTaken (frame v.arguments.expressions c'' a)).Follows c
        (w.optionsTaken a) :=
      ⟨hfilled, ⟨c'', hleaves.trans hleaves', rfl⟩, hf.extras_eq, fun h => (nomatch h),
        hf.opened_of⟩
    exact ih hf' (hv.behind_option hs ht ha')

end Walk.Follows

/-- The state of a walk with a change. -/
def Walk.framed (c : Change) (w : Walk) : Walk :=
  { w with arguments := frame w.arguments.expressions c w.arguments }

theorem Walk.plain_framed (w : Walk) (text : String) :
    (w.plain text).framed c = (w.framed c).plain text := by
  rw [Walk.plain, Walk.plain, apply_ite (Walk.framed c)]
  rfl

theorem Walk.separator_framed (w : Walk) (isLast : Bool) :
    (w.separator isLast).framed c = (w.framed c).separator isLast := by
  rw [Walk.separator, Walk.separator, apply_ite (Walk.framed c), apply_ite (Walk.framed c)]
  rfl

/-- **A walk that starts with a change ends with it**, and is the same otherwise. -/
theorem Goes.exists_framed (h : Goes w as w') : ∀ c : Change, ∃ c', c.Leaves c' ∧
    Goes (w.framed c) as (w'.framed c') := by
  induction h with
  | done => exact fun c => ⟨c, c.leaves_self, .done⟩
  | plain _ ih =>
    intro c
    obtain ⟨c', hleaves, h⟩ := ih c
    exact ⟨c', hleaves, .plain (Walk.plain_framed _ _ ▸ h)⟩
  | separator _ ih =>
    intro c
    obtain ⟨c', hleaves, h⟩ := ih c
    exact ⟨c', hleaves, .separator (Walk.separator_framed _ _ ▸ h)⟩
  | unknown _ ih =>
    intro c
    obtain ⟨c', hleaves, h⟩ := ih c
    exact ⟨c', hleaves, .unknown h⟩
  | @option w _ _ _ s _ value _ a _ hs ht ha _ ih =>
    intro c
    obtain ⟨c', hleaves, happly⟩ := apply_frame c s value
    obtain ⟨c'', hleaves', h⟩ := ih c'
    refine ⟨c'', hleaves.trans hleaves', .option hs ht ?_ h⟩
    rw [Walk.framed, happly, ha, ← apply_expressions ha]
    rfl

/-- **A walk comes to an option** in a state that does not depend on what follows. -/
theorem Goes.exists_state {ds : List Argument} : ∀ {cs : List Argument} {w : Walk},
    .separator ∉ cs → Goes w (cs ++ .option o name tail :: ds) w' →
      ∃ u, ∀ as v, Goes w (cs ++ as) v → Goes u as v
  | [], _, _, _ => ⟨_, fun _ _ h => h⟩
  | .plain _ :: cs, _, hcs, .plain h => by
    obtain ⟨u, hu⟩ := exists_state (List.not_mem_of_not_mem_cons hcs) h
    refine ⟨u, fun as v h => ?_⟩
    cases h with
    | plain h => exact hu as v h
  | .separator :: cs, _, hcs, _ => absurd List.mem_cons_self hcs
  | .unknown _ :: cs, _, hcs, .unknown h => by
    obtain ⟨u, hu⟩ := exists_state (List.not_mem_of_not_mem_cons hcs) h
    refine ⟨u, fun as v h => ?_⟩
    cases h with
    | unknown h => exact hu as v h
  | .option _ _ _ :: cs, _, hcs, .option hs ht ha h => by
    -- its value, if it needs one, stands in `cs`: otherwise the walk would not have gone through
    obtain ⟨cs', hsuffix, rfl, htakes⟩ := ht.exists_append
    have hcs' : .separator ∉ cs' := fun h => hcs (List.mem_cons_of_mem _ (hsuffix.subset h))
    obtain ⟨u, hu⟩ := exists_state hcs' h
    exact ⟨u, fun as v h => hu as v (h.behind_option hs (htakes as) ha)⟩
termination_by cs => cs.length
decreasing_by
  all_goals simp only [List.length_cons]
  · exact Nat.lt_succ_self _
  · exact Nat.lt_succ_self _
  · exact Nat.lt_succ_of_le hsuffix.length_le

/-! ## The command line -/

variable {argv before after : List String}

/-- **A command line is read** where the walk goes through, finds all expressions and leaves nothing
over. -/
theorem parse_eq_ok_iff : parse argv = .ok a ↔
    ∃ classes w, classifyAll argv = .ok classes ∧ Goes {} classes w ∧
      arity ≤ w.arguments.expressions.length ∧ w.extras = [] ∧ w.arguments = a := by
  simp only [parse, bind_eq_ok_iff, mapError_eq_ok_iff, walk_eq_ok_iff]
  refine exists_congr fun classes => ?_
  rw [← exists_and_left]
  refine exists_congr fun w => and_congr_right fun _ => and_congr_right fun _ => ?_
  have harity : expressionNames.drop w.arguments.expressions.length = [] ↔
      arity ≤ w.arguments.expressions.length := List.drop_eq_nil_iff
  rw [← harity]
  split <;> simp_all

/-- **Arguments that are one more option**, with what it leaves behind: one argument, or two, of
which the second one is the value. -/
inductive Adds (c : Change) : List String → Prop
  | single {text : String} {o : Opt} {name : String} {tail : Option String} {s : Spelled}
    (hclass : classify text = .ok (.option o name tail)) (hs : spelledBy o name tail = .ok s)
    (hvalue : ¬ (s.last.takesValue && s.value.isNone) = true)
    (ha : ∀ a, apply a s s.value = .ok (frame a.expressions c a)) : Adds c [text]
  | pair {text value : String} {o : Opt} {name : String} {tail : Option String} {s : Spelled}
    (hclass : classify text = .ok (.option o name tail)) (hs : spelledBy o name tail = .ok s)
    (hvalue : (s.last.takesValue && s.value.isNone) = true)
    (ha : ∀ a, apply a s (some value) = .ok (frame a.expressions c a)) : Adds c [text, value]

/-- A plain argument is its text. -/
theorem eq_of_classify_plain {value : String} (h : classify text = .ok (.plain value)) :
    value = text := by
  revert h
  fun_cases classify text <;> simp +contextual [eq_comm]

/-- An option stands first among what is read after it. -/
theorem classifyAll_option (hclass : classify text = .ok (.option o name tail))
    (rest : List String) :
    classifyAll (text :: rest) = (.option o name tail :: ·) <$> classifyAll rest := by
  have hne : text ≠ "--" := by
    rintro rfl
    have hrefused : (classify "--").toOption = none := by decide +kernel
    rw [hclass] at hrefused
    nomatch hrefused
  rw [classifyAll_cons hne, hclass]
  cases classifyAll rest <;> rfl

variable {added : List String} {classes : List Argument}

/-- One more option begins with an option. -/
theorem Adds.exists_head (h : Adds c added)
    (hclasses : classifyAll (added ++ after) = .ok classes) :
    ∃ o name tail as, classes = .option o name tail :: as := by
  cases h with
  | single hclass _ _ _ | pair hclass _ _ _ =>
    rw [List.cons_append, classifyAll_option hclass, map_eq_ok_iff] at hclasses
    obtain ⟨as, -, rfl⟩ := hclasses
    exact ⟨_, _, _, as, rfl⟩

/-- **One more option is one more step**, to its effect. -/
theorem Adds.behind (h : Adds c added) (hclasses : classifyAll (added ++ after) = .ok classes)
    (hgoes : Goes w classes w') : ∃ ds, classifyAll after = .ok ds ∧
      Goes (w.optionsTaken (frame w.arguments.expressions c w.arguments)) ds w' := by
  cases h with
  | single hclass hs hvalue ha =>
    rw [List.cons_append, classifyAll_option hclass, map_eq_ok_iff] at hclasses
    obtain ⟨ds, hds, rfl⟩ := hclasses
    exact ⟨ds, hds, hgoes.behind_option hs (.own hvalue) (ha _)⟩
  | @pair _ value _ _ _ _ hclass hs hvalue ha =>
    rw [List.cons_append, classifyAll_option hclass, map_eq_ok_iff] at hclasses
    obtain ⟨as, has, rfl⟩ := hclasses
    -- the walk goes through, so the second argument is plain, and no double dash
    obtain ⟨text, ds, rfl⟩ : ∃ text ds, as = .plain text :: ds := by
      cases hgoes with
      | option hs' ht _ _ =>
        obtain rfl := Except.ok.inj (hs.symm.trans hs')
        cases ht with
        | own hvalue' => exact absurd hvalue hvalue'
        | next _ => exact ⟨_, _, rfl⟩
    by_cases hvalue' : value = "--"
    · rw [hvalue', List.singleton_append, classifyAll, if_pos rfl] at has
      nomatch has
    · rw [List.singleton_append, classifyAll_cons hvalue', bind_eq_ok_iff] at has
      obtain ⟨b, hb, has⟩ := has
      obtain ⟨ds', hds, has⟩ := bind_eq_ok_iff.1 has
      obtain ⟨rfl, rfl⟩ := List.cons.inj (Except.ok.inj has)
      obtain rfl := eq_of_classify_plain hb
      exact ⟨ds', hds, hgoes.behind_option hs (.next hvalue) (ha _)⟩

/-- **One more option may be put first**, in one argument. -/
theorem parse_cons (hadds : Adds c [text]) (h : parse argv = .ok a) :
    ∃ c', c.Leaves c' ∧ parse (text :: argv) = .ok (frame a.expressions c' a) := by
  obtain ⟨classes, w, hclasses, hgoes, harity, hextras, rfl⟩ := parse_eq_ok_iff.1 h
  cases hadds with
  | single hclass hs hvalue ha =>
    obtain ⟨c', hleaves, hgoes'⟩ := hgoes.exists_framed c
    have hclasses' := classifyAll_option hclass argv
    rw [hclasses] at hclasses'
    exact ⟨c', hleaves, parse_eq_ok_iff.2 ⟨_, w.framed c', hclasses',
      .option hs (.own hvalue) (ha _) hgoes', harity, hextras, rfl⟩⟩

/-- **Wherever one more option is put**, before any double dash, it leaves its effect behind and
nothing else if the command line is read at all, but that a text may be found for an expression. -/
theorem parse_insert (hadds : Adds c added) (h : parse (before ++ after) = .ok a)
    (hbefore : "--" ∉ before) (h' : parse (before ++ (added ++ after)) = .ok a') :
    Filled a.expressions a'.expressions ∧
      ∃ c', c.Leaves c' ∧ a' = frame a'.expressions c' a := by
  obtain ⟨classes, w, hclasses, hgoes, -, -, rfl⟩ := parse_eq_ok_iff.1 h
  obtain ⟨classes', v, hclasses', hgoes', -, hextras, rfl⟩ := parse_eq_ok_iff.1 h'
  obtain ⟨cs, hcs, happend⟩ := exists_classes hbefore hclasses
  rw [happend, map_eq_ok_iff] at hclasses hclasses'
  obtain ⟨ds, hds, rfl⟩ := hclasses
  obtain ⟨as, has, rfl⟩ := hclasses'
  obtain ⟨_, _, _, _, rfl⟩ := hadds.exists_head has
  obtain ⟨u, hu⟩ := hgoes'.exists_state hcs
  obtain ⟨ds', hds', hv⟩ := hadds.behind has (hu _ _ hgoes')
  obtain rfl := Except.ok.inj (hds.symm.trans hds')
  have hfollows : (u.optionsTaken (frame u.arguments.expressions c u.arguments)).Follows c u :=
    ⟨.refl _, ⟨c, c.leaves_self, rfl⟩, rfl, fun h => (nomatch h), id⟩
  have hends := hfollows.goes (hu _ _ hgoes) hv hextras
  exact ⟨hends.filled, hends.framed⟩

/-! ## The flag for the row numbers -/

theorem adds_minterms : Adds { minterms := true } ["--minterms"] := by
  have hclass : classify "--minterms" = .ok (.option .minterms "--minterms" none) := by
    decide +kernel
  exact .single hclass rfl Bool.false_ne_true fun a => congrArg Except.ok
    (eq_withMinterms (Change.leaves_self _) rfl).symm

/-- **The flag for the row numbers may be put first.** -/
theorem parse_minterms_cons (h : parse argv = .ok a) :
    parse ("--minterms" :: argv) = .ok a.withMinterms := by
  obtain ⟨c, hleaves, h⟩ := parse_cons adds_minterms h
  rw [h, eq_withMinterms hleaves rfl]

/-- **Wherever the flag for the row numbers is put**, before any double dash, it adds itself and
nothing else if the command line is read at all. -/
theorem parse_minterms_insert (h : parse (before ++ after) = .ok a) (hnone : none ∉ a.expressions)
    (hbefore : "--" ∉ before) (h' : parse (before ++ "--minterms" :: after) = .ok a') :
    a' = a.withMinterms := by
  obtain ⟨hfilled, c, hleaves, ha'⟩ := parse_insert adds_minterms h hbefore h'
  rw [hfilled.eq hnone] at ha'
  exact eq_withMinterms hleaves ha'

end Arguments

end TruthTable
