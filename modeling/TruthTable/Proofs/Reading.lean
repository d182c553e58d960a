import TruthTable.Json.Reader
import TruthTable.Proofs.Outcome

/-!
# Proofs/Reading — the texts that a reader of JSON takes on no further

A fault of a text is a break of its grammar, or a limit of the reader: an integer with too many
digits, or a list or an object inside too many others.  A limit stops the reader only where a value
may come and nothing before it stopped the reader already.

* `State.length_of_run` — the open frames, counted by the pieces.
* `State.stops_of_step` — why a piece stops the reader.
* `Reaches` — the reader comes to a piece.
* `Overflows`, `read_eq_error_iff_overflows` — a text that meets a limit.
* `read_eq_or_overflows` — what a text means does not hang on the limits.
-/

namespace TruthTable.Json

variable {limits : Limits} {s s' : State} {pos : Nat} {piece : Lexeme} {f : Fault}
  {frames : List Frame}

/-! ## Open frames -/

/-- The piece opens a list or an object. -/
def Lexeme.opens : Lexeme → Bool
  | .sign .lbracket | .sign .lbrace => true
  | _ => false

/-- The piece ends a list or an object. -/
def Lexeme.closes : Lexeme → Bool
  | .sign .rbracket | .sign .rbrace => true
  | _ => false

namespace State

/-- **A value may come next.** -/
def AwaitsValue (s : State) : Prop := s.await = .value ∨ s.await = .valueOrEnd

@[simp] theorem length_complete (v : Json) : ∀ fs, (complete v fs).frames.length = fs.length
  | [] => rfl
  | .array _ :: _ => rfl
  | .object _ :: _ => rfl
  | .field _ _ :: _ => rfl

/-- **The piece that a value starts with** is one frame more if it opens one. -/
theorem length_of_value (h : value limits frames pos piece = .ok s') :
    s'.frames.length = frames.length + piece.opens.toNat ∧ piece.closes = false := by
  revert h
  fun_cases value limits frames pos piece with
  | case1 | case2 =>
    intro h
    obtain rfl := Except.ok.inj h
    exact ⟨length_complete _ _, rfl⟩
  | case3 | case4 | case7 => exact fun h => nomatch h
  | case5 | case6 =>
    rw [value.opened]
    split
    · exact fun h => nomatch h
    · intro h
      obtain rfl := Except.ok.inj h
      exact ⟨rfl, rfl⟩

theorem length_of_name (h : name frames pos piece = .ok s') :
    s'.frames.length = frames.length ∧ piece.opens = false ∧ piece.closes = false := by
  revert h
  fun_cases name frames pos piece with
  | case1 =>
    intro h
    obtain rfl := Except.ok.inj h
    exact ⟨rfl, rfl, rfl⟩
  | case2 | case3 => exact fun h => nomatch h

/-- **A piece is one frame more** if it opens one, and one less if it ends one. -/
theorem length_of_step (h : s.step limits pos piece = .ok s') :
    s'.frames.length + piece.closes.toNat = s.frames.length + piece.opens.toNat := by
  revert h
  fun_cases State.step limits s pos piece with
  | case1 items fs hframes | case2 fields fs hframes | case9 items fs hframes
  | case10 fields fs hframes =>
    intro h
    obtain rfl := Except.ok.inj h
    rw [length_complete, hframes]
    rfl
  | case3 | case4 =>
    intro h
    obtain ⟨hlength, hcloses⟩ := length_of_value h
    rw [hlength, hcloses]
    rfl
  | case5 | case6 =>
    intro h
    obtain ⟨hlength, hopens, hcloses⟩ := length_of_name h
    rw [hlength, hopens, hcloses]
  | case7 | case14 =>
    intro h
    obtain rfl := Except.ok.inj h
    rfl
  | case11 items fs hframes | case12 fields fs hframes =>
    intro h
    obtain rfl := Except.ok.inj h
    rw [hframes]
    rfl
  | case8 | case13 | case15 => exact fun h => nomatch h

/-! ## What stops the reader -/

/-- **Why a piece stops the reader.** -/
inductive Stops (limits : Limits) (s : State) (pos : Nat) (piece : Lexeme) : Fault → Prop
  | unwanted (p : Problem) : Stops limits s pos piece (.malformed p pos)
  | string {f : Fault} (hpiece : piece = .badString f) : Stops limits s pos piece f
  | number {f : Fault} (hs : s.AwaitsValue) (hpiece : piece = .badNumber f) :
    Stops limits s pos piece f
  | depth (hs : s.AwaitsValue) (hopens : piece.opens = true)
    (hdepth : limits.depth ≤ s.frames.length) : Stops limits s pos piece .tooDeep

theorem stops_of_value (hs : s.AwaitsValue)
    (h : value limits s.frames pos piece = .error f) : Stops limits s pos piece f := by
  revert h
  fun_cases value limits s.frames pos piece with
  | case1 | case2 => exact fun h => nomatch h
  | case3 =>
    intro h
    exact .string (congrArg _ (Except.error.inj h))
  | case4 =>
    intro h
    exact .number hs (congrArg _ (Except.error.inj h))
  | case5 | case6 =>
    rw [value.opened]
    split
    · rename_i hdepth
      intro h
      obtain rfl := Except.error.inj h
      exact .depth hs rfl hdepth
    · exact fun h => nomatch h
  | case7 =>
    intro h
    obtain rfl := Except.error.inj h
    exact .unwanted _

theorem stops_of_name (h : name s.frames pos piece = .error f) : Stops limits s pos piece f := by
  revert h
  fun_cases name s.frames pos piece with
  | case1 => exact fun h => nomatch h
  | case2 =>
    intro h
    exact .string (congrArg _ (Except.error.inj h))
  | case3 =>
    intro h
    obtain rfl := Except.error.inj h
    exact .unwanted _

theorem stops_of_step (h : s.step limits pos piece = .error f) : Stops limits s pos piece f := by
  revert h
  fun_cases State.step limits s pos piece with
  | case1 | case2 | case7 | case9 | case10 | case11 | case12 | case14 => exact fun h => nomatch h
  | case3 => exact stops_of_value (.inl ‹_›)
  | case4 => exact stops_of_value (.inr ‹_›)
  | case5 | case6 => exact stops_of_name
  | case8 | case13 | case15 =>
    intro h
    obtain rfl := Except.error.inj h
    exact .unwanted _

/-- Where a value may come, a piece that ends nothing starts one. -/
theorem step_eq_value (hs : s.AwaitsValue) (h : piece.closes = false) :
    s.step limits pos piece = value limits s.frames pos piece := by
  have hawait (a : Await) (ha : a ≠ .value ∧ a ≠ .valueOrEnd) : s.await ≠ a := by
    rintro rfl
    exact hs.elim ha.1 ha.2
  fun_cases State.step limits s pos piece
  case case1 | case9 => nomatch h
  case case3 | case4 => rfl
  all_goals exact absurd ‹_› (hawait _ (by simp))

/-- **Where a value may come**, a broken number stops the reader. -/
theorem step_badNumber (hs : s.AwaitsValue) (f : Fault) :
    s.step limits pos (.badNumber f) = .error f := step_eq_value hs rfl

/-- **Where a value may come**, one more frame past the limit stops the reader. -/
theorem step_tooDeep (hs : s.AwaitsValue) (hopens : piece.opens = true)
    (hdepth : limits.depth ≤ s.frames.length) : s.step limits pos piece = .error .tooDeep := by
  revert hopens
  fun_cases Lexeme.opens piece with
  | case1 | case2 =>
    intro _
    rw [step_eq_value hs rfl]
    exact if_pos hdepth
  | case3 => exact fun h => nomatch h

/-! ## Runs -/

/-- **The reader goes through some pieces.** -/
def run (limits : Limits) (s : State) (pieces : List (Nat × Lexeme)) : Except Fault State :=
  pieces.foldlM (fun s (pos, piece) => s.step limits pos piece) s

/-- **The open frames** are as many more as the pieces open than end. -/
theorem length_of_run : ∀ {pieces : List (Nat × Lexeme)} {s : State},
    run limits s pieces = .ok s' →
      s'.frames.length + pieces.countP (·.2.closes) = s.frames.length + pieces.countP (·.2.opens)
  | [], s, h => by
    obtain rfl := Except.ok.inj h
    rfl
  | (pos, piece) :: pieces, s, h => by
    obtain ⟨t, hstep, hrun⟩ := bind_eq_ok_iff.1 h
    have hstep := length_of_step hstep
    have hrun := length_of_run hrun
    have htoNat (b : Bool) : (if b = true then 1 else 0) = b.toNat := by cases b <;> rfl
    rw [List.countP_cons, List.countP_cons, htoNat, htoNat]
    dsimp only
    omega

end State

/-! ## Broken pieces -/

/-- **A fault that breaks the grammar.** -/
def Fault.IsMalformed (f : Fault) : Prop := ∃ problem position, f = .malformed problem position

theorem isMalformed_of_lowEscape? {p : Nat} {cs : List Char} (h : lowEscape? p cs = .error f) :
    f.IsMalformed := by
  revert h
  fun_cases lowEscape? p cs with
  | case1 => exact fun h => ⟨_, _, (Except.error.inj h).symm⟩
  | case2 | case3 => exact fun h => nomatch h

theorem isMalformed_of_readEscape {start p : Nat} {cs : List Char}
    (h : readEscape start p cs = .error f) : f.IsMalformed := by
  revert h
  fun_cases readEscape start p cs with
  | case1 | case2 | case7 | case9 => exact fun h => ⟨_, _, (Except.error.inj h).symm⟩
  | case3 =>
    intro h
    obtain rfl := Except.error.inj h
    exact isMalformed_of_lowEscape? ‹_›
  | case4 | case5 | case6 | case8 => exact fun h => nomatch h

/-- **A string breaks where the grammar does.** -/
theorem isMalformed_of_readString {start p skip : Nat} {codes : List Nat} {cs : List Char}
    (h : readString start codes p skip cs = .error f) : f.IsMalformed := by
  revert h
  fun_induction readString start codes p skip cs with
  | case1 | case6 => exact fun h => ⟨_, _, (Except.error.inj h).symm⟩
  | case2 | case4 | case7 => assumption
  | case3 => exact fun h => nomatch h
  | case5 =>
    intro h
    obtain rfl := Except.error.inj h
    exact isMalformed_of_readEscape ‹_›

variable {maxDigits : Nat} {w : Written} {c : Char} {cs text : List Char}

/-- **A number breaks** where it is an integer past the limit. -/
theorem Written.value_eq_error_iff : w.value maxDigits = .error f ↔
    w.fraction = [] ∧ w.exponent = none ∧ maxDigits < w.whole.length ∧
      f = .digits (.reading w.whole.length) := by
  have hinteger : (w.fraction.isEmpty && w.exponent.isNone) = true ↔
      w.fraction = [] ∧ w.exponent = none := by
    rw [Bool.and_eq_true, List.isEmpty_iff, Option.isNone_iff_eq_none]
  rw [Written.value, ← and_assoc, ← hinteger]
  split
  · rename_i hplain
    rw [and_iff_right hplain]
    split
    · rename_i hlong
      rw [and_iff_right hlong, Except.error.injEq]
      exact eq_comm
    · rename_i hlong
      exact iff_of_false (fun h => nomatch h) fun h => hlong h.1
  · rename_i hplain
    exact iff_of_false (fun h => nomatch h) fun h => hplain h.1

/-- **An integer past the limit** stands at a position, with so many digits. -/
def LongInteger (maxDigits : Nat) (text : List Char) (pos count : Nat) : Prop :=
  ∃ w, readNumber? (text.drop pos) = some w ∧ w.fraction = [] ∧ w.exponent = none ∧
    w.whole.length = count ∧ maxDigits < count

/-- A broken string breaks the grammar. -/
theorem isMalformed_of_lexeme (h : (lexeme maxDigits pos c cs).1 = .badString f) :
    f.IsMalformed := by
  revert h
  fun_cases lexeme maxDigits pos c cs with
  | case1 | case2 | case4 | case5 | case6 | case7 => exact fun h => nomatch h
  | case3 =>
    intro h
    obtain rfl := Lexeme.badString.inj h
    exact isMalformed_of_readString ‹_›

theorem exists_of_lexeme (h : (lexeme maxDigits pos c cs).1 = .badNumber f) :
    ∃ w, readNumber? (c :: cs) = some w ∧ w.value maxDigits = .error f := by
  revert h
  fun_cases lexeme maxDigits pos c cs with
  | case1 | case2 | case3 | case4 | case5 | case6 => exact fun h => nomatch h
  | case7 =>
    intro h
    obtain rfl := Lexeme.badNumber.inj h
    exact ⟨_, ‹_›, ‹_›⟩

/-- **A piece stands where it says**, unless it is the end. -/
theorem exists_of_mem_lexemesFrom {p skip : Nat} :
    (pos, piece) ∈ lexemesFrom maxDigits p skip text →
      piece = .eof ∨ ∃ k c cs, pos = p + k ∧ text.drop k = c :: cs ∧
        piece = (lexeme maxDigits pos c cs).1 := by
  fun_induction lexemesFrom maxDigits p skip text with
  | case1 => exact fun h => .inl (Prod.mk.inj (List.mem_singleton.1 h)).2
  | case2 p skip c' cs ih | case3 p c' cs _ ih =>
    intro h
    refine (ih h).imp_right fun ⟨k, c, cs, hpos, htext, hpiece⟩ => ?_
    exact ⟨k + 1, c, cs, by omega, htext, hpiece⟩
  | case4 p c' cs' _ piece' length hlexeme ih =>
    intro h
    rcases List.mem_cons.1 h with h | h
    · obtain ⟨rfl, rfl⟩ := Prod.mk.inj h
      exact .inr ⟨0, c', cs', rfl, rfl, by rw [hlexeme]⟩
    · split at h
      · refine (ih h).imp_right fun ⟨k, c, cs, hpos, htext, hpiece⟩ => ?_
        exact ⟨k + 1, c, cs, by omega, htext, hpiece⟩
      · nomatch h

/-- A piece other than the end stands at its position. -/
theorem lexeme_of_mem (h : (pos, piece) ∈ lexemes maxDigits text) :
    piece = .eof ∨ ∃ c cs, text.drop pos = c :: cs ∧ piece = (lexeme maxDigits pos c cs).1 := by
  obtain h | ⟨k, c, cs, hpos, htext, hpiece⟩ := exists_of_mem_lexemesFrom h
  · exact .inl h
  · obtain rfl := hpos.trans (Nat.zero_add k)
    exact .inr ⟨c, cs, htext, hpiece⟩

theorem isMalformed_of_mem (h : (pos, .badString f) ∈ lexemes maxDigits text) :
    f.IsMalformed := by
  obtain h | ⟨c, cs, -, hpiece⟩ := lexeme_of_mem h
  · nomatch h
  · exact isMalformed_of_lexeme hpiece.symm

/-- **A broken number** of a text is an integer past the limit. -/
theorem longInteger_of_mem (h : (pos, .badNumber f) ∈ lexemes maxDigits text) :
    ∃ count, f = .digits (.reading count) ∧ LongInteger maxDigits text pos count := by
  obtain h | ⟨c, cs, htext, hpiece⟩ := lexeme_of_mem h
  · nomatch h
  · obtain ⟨w, hw, hvalue⟩ := exists_of_lexeme hpiece.symm
    obtain ⟨hfraction, hexponent, hlong, hf⟩ := Written.value_eq_error_iff.1 hvalue
    exact ⟨_, hf, w, htext ▸ hw, hfraction, hexponent, rfl, hlong⟩

/-! ## Texts that meet a limit -/

/-- **The reader comes to a piece** in a state, behind the pieces that it went through. -/
structure Reaches (limits : Limits) (text : List Char) (before : List (Nat × Lexeme)) (pos : Nat)
    (piece : Lexeme) (s : State) : Prop where
  unmarked : text.head? ≠ some '\ufeff'
  exists_rest : ∃ rest, lexemes limits.digits text = before ++ (pos, piece) :: rest
  run_eq : State.run limits ⟨.value, []⟩ before = .ok s

variable {before : List (Nat × Lexeme)}

theorem Reaches.length_eq (h : Reaches limits text before pos piece s) :
    s.frames.length + before.countP (·.2.closes) = before.countP (·.2.opens) :=
  (State.length_of_run h.run_eq).trans (Nat.zero_add _)

theorem Reaches.mem (h : Reaches limits text before pos piece s) :
    (pos, piece) ∈ lexemes limits.digits text := by
  obtain ⟨rest, hrest⟩ := h.exists_rest
  rw [hrest]
  exact List.mem_append_right _ List.mem_cons_self

/-- **A fault that is no break of the grammar** is one with which a piece stops the reader. -/
theorem read_eq_error_iff (hf : ¬ f.IsMalformed) : read limits text = .error f ↔
    ∃ before pos piece s, Reaches limits text before pos piece s ∧
      s.step limits pos piece = .error f := by
  rw [read]
  by_cases hmark : text.head? = some '\ufeff'
  · rw [if_pos hmark]
    constructor
    · exact fun h => absurd ⟨_, _, (Except.error.inj h).symm⟩ hf
    · rintro ⟨before, pos, piece, s, hreaches, -⟩
      exact absurd hmark hreaches.unmarked
  · rw [if_neg hmark, bind_eq_error_iff]
    constructor
    · rintro (h | ⟨s, -, h⟩)
      · obtain ⟨before, ⟨pos, piece⟩, rest, s, hpieces, hrun, hstep⟩ := foldlM_eq_error_iff.1 h
        exact ⟨before, pos, piece, s, ⟨hmark, ⟨rest, hpieces⟩, hrun⟩, hstep⟩
      · split at h
        · nomatch h
        · exact absurd ⟨_, _, (Except.error.inj h).symm⟩ hf
    · rintro ⟨before, pos, piece, s, ⟨-, ⟨rest, hpieces⟩, hrun⟩, hstep⟩
      exact .inl (foldlM_eq_error_iff.2 ⟨before, (pos, piece), rest, s, hpieces, hrun, hstep⟩)

/-- **A text meets a limit of the reader**: an integer with too many digits stands, or a list or an
object starts inside too many others, where a value may come. -/
inductive Overflows (limits : Limits) (text : List Char) : Fault → Prop
  | digits {before : List (Nat × Lexeme)} {pos count : Nat} {s : State}
    (hreaches : Reaches limits text before pos (.badNumber (.digits (.reading count))) s)
    (hs : s.AwaitsValue) (hlong : LongInteger limits.digits text pos count) :
    Overflows limits text (.digits (.reading count))
  | depth {before : List (Nat × Lexeme)} {pos : Nat} {piece : Lexeme} {s : State}
    (hreaches : Reaches limits text before pos piece s)
    (hs : s.AwaitsValue) (hopens : piece.opens = true)
    (hdepth : limits.depth + before.countP (·.2.closes) ≤ before.countP (·.2.opens)) :
    Overflows limits text .tooDeep

theorem Overflows.not_isMalformed (h : Overflows limits text f) : ¬ f.IsMalformed := by
  rintro ⟨problem, position, rfl⟩
  cases h

/-- **All other faults of a text** are limits that it meets. -/
theorem read_eq_error_iff_overflows (hf : ¬ f.IsMalformed) :
    read limits text = .error f ↔ Overflows limits text f := by
  rw [read_eq_error_iff hf]
  constructor
  · rintro ⟨before, pos, piece, s, hreaches, hstep⟩
    cases State.stops_of_step hstep with
    | unwanted p => exact absurd ⟨_, _, rfl⟩ hf
    | string hpiece =>
      subst hpiece
      exact absurd (isMalformed_of_mem hreaches.mem) hf
    | number hs hpiece =>
      subst hpiece
      obtain ⟨count, rfl, hlong⟩ := longInteger_of_mem hreaches.mem
      exact .digits hreaches hs hlong
    | depth hs hopens hdepth =>
      have hlength := hreaches.length_eq
      exact .depth hreaches hs hopens (by omega)
  · intro h
    cases h with
    | digits hreaches hs _ => exact ⟨_, _, _, _, hreaches, State.step_badNumber hs _⟩
    | depth hreaches hs hopens hdepth =>
      have hlength := hreaches.length_eq
      exact ⟨_, _, _, _, hreaches, State.step_tooDeep hs hopens (by omega)⟩

example : Overflows ⟨3, 2⟩ ['[', '1', '2', '3', '4', ']'] (.digits (.reading 4)) :=
  (read_eq_error_iff_overflows fun ⟨_, _, h⟩ => nomatch h).1 rfl

/-- **A text meets a limit** where it has a fault that is no break of the grammar. -/
theorem exists_overflows_iff :
    (∃ f, Overflows limits text f) ↔ ∃ f, ¬ f.IsMalformed ∧ read limits text = .error f := by
  constructor
  · rintro ⟨f, hf⟩
    exact ⟨f, hf.not_isMalformed, (read_eq_error_iff_overflows hf.not_isMalformed).2 hf⟩
  · rintro ⟨f, hf, hread⟩
    exact ⟨f, (read_eq_error_iff_overflows hf).1 hread⟩

/-! ## Other limits -/

/-- **The outcome is this**, or a limit was met. -/
def OkOrLimit {α : Type} (outcome : Except Fault α) (a : α) : Prop :=
  outcome = .ok a ∨ ∃ f, ¬ f.IsMalformed ∧ outcome = .error f

theorem OkOrLimit.bind {α β : Type} {x : Except Fault α} {next : α → Except Fault β} {a : α} {b : β}
    (hx : OkOrLimit x a) (hnext : OkOrLimit (next a) b) : OkOrLimit (x >>= next) b := by
  obtain rfl | ⟨f, hf, rfl⟩ := hx
  · exact hnext
  · exact .inr ⟨f, hf, rfl⟩

theorem okOrLimit_tooDeep {α : Type} (a : α) : OkOrLimit (.error .tooDeep) a :=
  .inr ⟨.tooDeep, (fun ⟨_, _, h⟩ => nomatch h), rfl⟩

/-- **A piece under another limit** on digits: an integer may be broken there, or whole again. -/
inductive Lexeme.Becomes : Lexeme → Lexeme → Prop
  | same (piece : Lexeme) : Becomes piece piece
  | broken (v : Json) {f : Fault} (hf : ¬ f.IsMalformed) : Becomes (.plain v) (.badNumber f)
  | mended (f : Fault) (v : Json) : Becomes (.badNumber f) (.plain v)

theorem Lexeme.Becomes.goesOn_eq {piece piece' : Lexeme} (h : Becomes piece piece') :
    piece'.goesOn = piece.goesOn := by
  cases h <;> rfl

/-- A number has **one value** under all limits that leave it one. -/
theorem Written.value_cases (w : Written) (maxDigits maxDigits' : Nat) :
    w.value maxDigits' = w.value maxDigits ∨
    (∃ v f, w.value maxDigits = .ok v ∧ w.value maxDigits' = .error f ∧ ¬ f.IsMalformed) ∨
    ∃ f v, w.value maxDigits = .error f ∧ w.value maxDigits' = .ok v := by
  rw [Written.value, Written.value]
  by_cases hplain : (w.fraction.isEmpty && w.exponent.isNone) = true
  · rw [if_pos hplain, if_pos hplain]
    by_cases hlong : maxDigits < w.whole.length <;> by_cases hlong' : maxDigits' < w.whole.length
    · rw [if_pos hlong, if_pos hlong']
      exact .inl rfl
    · rw [if_pos hlong, if_neg hlong']
      exact .inr (.inr ⟨_, _, rfl, rfl⟩)
    · rw [if_neg hlong, if_pos hlong']
      exact .inr (.inl ⟨_, _, rfl, rfl, fun ⟨_, _, h⟩ => nomatch h⟩)
    · rw [if_neg hlong, if_neg hlong']
      exact .inl rfl
  · rw [if_neg hplain, if_neg hplain]
    exact .inl rfl

/-- **The piece at the start of a text** takes the same characters under every limit. -/
theorem lexeme_becomes (maxDigits maxDigits' pos : Nat) (c : Char) (cs : List Char) :
    (lexeme maxDigits pos c cs).1.Becomes (lexeme maxDigits' pos c cs).1 ∧
      (lexeme maxDigits' pos c cs).2 = (lexeme maxDigits pos c cs).2 := by
  rw [lexeme, lexeme]
  cases Sign.ofChar? c with
  | some s => exact ⟨.same _, rfl⟩
  | none =>
    by_cases hquote : c = '"'
    · rw [if_pos hquote, if_pos hquote]
      exact ⟨.same _, rfl⟩
    rw [if_neg hquote, if_neg hquote]
    cases words.find? fun x => x.1.toList.isPrefixOf (c :: cs) with
    | some word => exact ⟨.same _, rfl⟩
    | none =>
      cases readNumber? (c :: cs) with
      | none => exact ⟨.same _, rfl⟩
      | some w =>
        dsimp only
        obtain h | ⟨v, f, h, h', hf⟩ | ⟨f, v, h, h'⟩ := w.value_cases maxDigits maxDigits'
        · rw [h]
          exact ⟨.same _, rfl⟩
        · rw [h, h']
          exact ⟨.broken v hf, rfl⟩
        · rw [h, h']
          exact ⟨.mended f v, rfl⟩

namespace State

variable {limits' : Limits} {piece' : Lexeme}

theorem value_other_limits (h : value limits frames pos piece = .ok s') :
    OkOrLimit (value limits' frames pos piece) s' := by
  revert h
  fun_cases value limits frames pos piece with
  | case1 | case2 => exact .inl
  | case3 | case4 | case7 => exact fun h => nomatch h
  | case5 | case6 =>
    rw [value.opened, value, value.opened]
    split
    · exact fun h => nomatch h
    · split
      · exact fun _ => okOrLimit_tooDeep _
      · exact .inl

/-- **A piece leads to the same state**, or too deep. -/
theorem step_other_limits (h : s.step limits pos piece = .ok s') :
    OkOrLimit (s.step limits' pos piece) s' := by
  revert h
  fun_cases State.step limits s pos piece
  case case3 | case4 =>
    have hstep : s.step limits' pos piece = value limits' s.frames pos piece := by
      simp only [State.step, *]
    rw [hstep]
    exact value_other_limits
  -- The limits count only where a value may start.
  all_goals
    intro h
    exact .inl (h ▸ by simp only [State.step, *])

/-- **A number comes** where a value may. -/
theorem awaitsValue_of_step (hpiece : (∃ v, piece = .plain v) ∨ ∃ f, piece = .badNumber f)
    (h : s.step limits pos piece = .ok s') : s.AwaitsValue := by
  revert h
  fun_cases State.step limits s pos piece with
  | case3 => exact fun _ => .inl ‹_›
  | case4 => exact fun _ => .inr ‹_›
  | case1 | case2 | case7 | case9 | case10 | case11 | case12 | case14 =>
    obtain ⟨_, h⟩ | ⟨_, h⟩ := hpiece <;> cases h
  | case8 | case13 | case15 => exact fun h => nomatch h
  | case5 | case6 =>
    fun_cases name s.frames pos piece with
    | case1 => obtain ⟨_, h⟩ | ⟨_, h⟩ := hpiece <;> cases h
    | case2 | case3 => exact fun h => nomatch h

theorem step_of_becomes (hpiece : piece.Becomes piece') (h : s.step limits pos piece = .ok s') :
    OkOrLimit (s.step limits' pos piece') s' := by
  cases hpiece with
  | same => exact step_other_limits h
  | broken v hf =>
    have hs := awaitsValue_of_step (.inl ⟨v, rfl⟩) h
    exact .inr ⟨_, hf, step_badNumber hs _⟩
  | mended f v =>
    have hs := awaitsValue_of_step (.inr ⟨f, rfl⟩) h
    rw [step_badNumber hs] at h
    nomatch h

/-- **The pieces of a text lead to the same state**, or to a limit. -/
theorem run_other_limits {p skip : Nat} {text : List Char} {s : State}
    (h : run limits s (lexemesFrom limits.digits p skip text) = .ok s') :
    OkOrLimit (run limits' s (lexemesFrom limits'.digits p skip text)) s' := by
  fun_induction lexemesFrom limits.digits p skip text generalizing s with
  | case1 =>
    obtain ⟨t, hstep, hrun⟩ := bind_eq_ok_iff.1 h
    rw [lexemesFrom]
    exact (step_other_limits hstep).bind (.inl hrun)
  | case2 p skip c cs ih => exact ih h
  | case3 p c cs hspace ih =>
    rw [lexemesFrom, if_pos hspace]
    exact ih h
  | case4 p c cs hspace piece length hlexeme ih =>
    obtain ⟨hpiece, hlength⟩ := lexeme_becomes limits.digits limits'.digits p c cs
    rw [hlexeme] at hpiece hlength
    obtain ⟨t, hstep, hrun⟩ := bind_eq_ok_iff.1 h
    rw [lexemesFrom, if_neg hspace]
    dsimp only at hpiece hlength ⊢
    rw [hlength, hpiece.goesOn_eq]
    refine (step_of_becomes hpiece hstep).bind ?_
    by_cases hgoes : piece.goesOn = true
    · rw [if_pos hgoes] at hrun ⊢
      exact ih hrun
    · rw [if_neg hgoes] at hrun ⊢
      exact .inl hrun

end State

/-- **A text has one value** under all limits that it does not meet. -/
theorem read_eq_or_overflows {v : Json} (limits' : Limits) (h : read limits text = .ok v) :
    read limits' text = .ok v ∨ ∃ f, Overflows limits' text f := by
  rw [exists_overflows_iff]
  change OkOrLimit (read limits' text) v
  rw [read] at h ⊢
  by_cases hmark : text.head? = some '\ufeff'
  · rw [if_pos hmark] at h
    nomatch h
  · rw [if_neg hmark] at h ⊢
    obtain ⟨s, hrun, hend⟩ := bind_eq_ok_iff.1 h
    exact (State.run_other_limits hrun).bind (.inl hend)

end TruthTable.Json
