import TruthTable.Proofs.Lexing
import TruthTable.Proofs.Normalization

/-!
# Proofs/Scanning — which texts are scanned, and where the others stop

Whether a character may stand in a text depends on what is in front of it, and on nothing behind:
signs and letters may stand anywhere, the other characters of names only where a name has begun.
The scan stops at the first character that may not stand where it does, so it stops there whatever
follows, and what it scans is scanned when it ends sooner.

* `stands` — the character may stand behind the text.
* `Stops` — the first character that may not; `scan_eq_error_iff` says that the scan stops there.
* `WellSpelled` — the scanned texts by their words, in `exists_scan_iff_wellSpelled`.
* `scan_reads_or_stops` — which texts are scanned, and where and why the others are refused.
-/

namespace TruthTable

open Text

/-- **A name is being read** behind the text: the word that it ends in has a letter. -/
def inName (read : List Char) : Bool := (read.rtakeWhile isNameChar).any isLetter

/-- **The character may stand** behind the text, as a sign or in a name. -/
def stands (read : List Char) (c : Char) : Bool :=
  c == ' ' || (Token.ofChar? c).isSome || isLetter c || (isNameChar c && inName read)

/-- The characters outside of words that are **read everywhere**. -/
def punctuation : List Char := [' ', '(', ')', '\'', '+', '|', '*', '.', '·', '^', '!', '~']

/-- **The text stops** at the character behind `front`, where `read` is in front of it: all
characters before it may stand, and it may not. -/
inductive Stops : (read cs front : List Char) → Char → Prop
  | here {read c cs} (h : stands read c = false) : Stops read (c :: cs) read c
  | there {read c cs front d} (h : stands read c = true) (hcs : Stops (read ++ [c]) cs front d) :
    Stops read (c :: cs) front d

/-- **A run of the characters of names** in the text, as far as it goes. -/
structure NameRun (cs front run rest : List Char) : Prop where
  eq : cs = front ++ run ++ rest
  within : ∀ c ∈ run, isNameChar c = true
  starts : ∀ c ∈ front.getLast?, isNameChar c = false
  ends : ∀ c ∈ rest.head?, isNameChar c = false

/-- **A well spelled text**: outside of words it has only punctuation, and in each word only
constants up to the first letter. -/
structure WellSpelled (cs : List Char) : Prop where
  outside : ∀ c ∈ cs, isNameChar c = false → c ∈ punctuation
  words : ∀ front run rest, NameRun cs front run rest →
    ∀ c ∈ run.takeWhile fun d => !isLetter d, c = '0' ∨ c = '1'

variable {c d : Char} {read cs ds front : List Char}

/-! ## One character -/

theorem inName_concat (read : List Char) (c : Char) :
    inName (read ++ [c]) = (isNameChar c && (isLetter c || inName read)) := by
  rw [inName, List.rtakeWhile_concat]
  cases isNameChar c with
  | true => simp [inName, Bool.or_comm]
  | false => rfl

/-- The characters of tokens are the punctuation and the constants. -/
theorem isSome_ofChar?_iff : (Token.ofChar? c).isSome = true ∨ c = ' ' ↔
    c ∈ punctuation ∨ c = '0' ∨ c = '1' := by
  unfold Token.ofChar?
  split <;> simp_all [punctuation]

theorem stands_iff (read : List Char) (c : Char) : stands read c = true ↔
    (c ∈ punctuation ∨ c = '0' ∨ c = '1') ∨ isLetter c = true ∨
      isNameChar c = true ∧ inName read = true := by
  rw [← isSome_ofChar?_iff]
  simp only [stands, Bool.or_eq_true, Bool.and_eq_true, beq_iff_eq]
  tauto

theorem isNameChar_of_mem_punctuation (hc : c ∈ punctuation) : isNameChar c = false := by
  have hall : punctuation.all (!isNameChar ·) = true := by decide
  simpa using List.all_eq_true.1 hall c hc

/-- Outside of words the character has to be one of the punctuation. -/
theorem stands_iff_mem_punctuation (hc : isNameChar c = false) (read : List Char) :
    stands read c = true ↔ c ∈ punctuation := by
  rw [stands_iff]
  constructor
  · rintro ((h | rfl | rfl) | h | ⟨h, -⟩)
    · exact h
    · nomatch hc
    · nomatch hc
    · nomatch (isNameChar_of_isLetter h).symm.trans hc
    · nomatch h.symm.trans hc
  · exact fun h => .inl (.inl h)

/-- In a word, a character that is no letter has to be a constant, or to stand behind a letter. -/
theorem stands_iff_of_isNameChar (hc : isNameChar c = true) (read : List Char) :
    stands read c = true ↔ (c = '0' ∨ c = '1') ∨ isLetter c = true ∨ inName read = true := by
  have hpunctuation : c ∉ punctuation := fun h =>
    nomatch (isNameChar_of_mem_punctuation h).symm.trans hc
  simp only [stands_iff, hc, hpunctuation, false_or, true_and]

/-! ## The first character that may not stand -/

theorem not_stops_nil : ¬ Stops read [] front d := nofun

theorem stops_cons_iff_of_stands (h : stands read c = true) :
    Stops read (c :: cs) front d ↔ Stops (read ++ [c]) cs front d := by
  refine ⟨fun hstops => ?_, .there h⟩
  cases hstops with
  | here hc => nomatch h.symm.trans hc
  | there _ hcs => exact hcs

theorem stops_cons_iff_of_not_stands (h : stands read c = false) :
    Stops read (c :: cs) front d ↔ front = read ∧ d = c := by
  constructor
  · intro hstops
    cases hstops with
    | here => exact ⟨rfl, rfl⟩
    | there hc _ => nomatch hc.symm.trans h
  · rintro ⟨rfl, rfl⟩
    exact .here h

/-- **In a name no character stops.** -/
theorem stops_append_iff_of_inName : ∀ {word read : List Char}, inName read = true →
    (∀ c ∈ word, isNameChar c = true) →
      (Stops read (word ++ cs) front d ↔ Stops (read ++ word) cs front d)
  | [], read, _, _ => by rw [List.append_nil]; rfl
  | c :: word, read, hread, hword => by
    obtain ⟨hc, hword⟩ := List.forall_mem_cons.1 hword
    have hstands : stands read c = true := by simp [stands, hc, hread]
    have hnext : inName (read ++ [c]) = true := by simp [inName_concat, hc, hread]
    rw [List.cons_append, stops_cons_iff_of_stands hstands, stops_append_iff_of_inName hnext hword,
      List.append_assoc]
    rfl

/-- A name that has ended takes no more characters in. -/
theorem not_inName_of_ends (hends : inName read = true → EndsName (c :: cs)) :
    (isNameChar c && inName read) = false := by
  cases hread : inName read with
  | true => rw [hends hread c rfl, Bool.false_and]
  | false => rw [Bool.and_false]

/-- **The scan stops where the text does**, unless a name runs on into it. -/
theorem scanFrom_eq_error_iff {pos : Nat} {e : ExprError} (hpos : pos = read.length)
    (hends : inName read = true → EndsName cs) :
    scanFrom pos cs = .error e ↔
      ∃ front c, Stops read cs front c ∧ e = .unexpectedChar (front.length + 1) c := by
  fun_induction scanFrom pos cs generalizing read with
  | case1 => simp [not_stops_nil]
  | case2 pos cs ih =>
    have hnext : inName (read ++ [' ']) = false := inName_concat read ' '
    have hlength : pos + 1 = (read ++ [' ']).length := by simp [hpos]
    have hstands : stands read ' ' = true := rfl
    simp only [ih hlength (by simp [hnext]), stops_cons_iff_of_stands hstands]
  | case3 pos c cs _ t ht ih =>
    have hletter : isLetter c = false := Bool.eq_false_iff.2 fun hc =>
      nomatch (ofChar?_of_isLetter hc).symm.trans ht
    -- a constant belongs to the characters of names too, but no name is being read here
    have hnext : inName (read ++ [c]) = false := by
      rw [inName_concat, hletter, Bool.false_or, not_inName_of_ends hends]
    have hlength : pos + 1 = (read ++ [c]).length := by simp [hpos]
    have hstands : stands read c = true := by simp [stands, ht]
    simp only [map_eq_error_iff, ih hlength (by simp [hnext]), stops_cons_iff_of_stands hstands]
  | case4 pos c cs _ _ hletter ih =>
    have hword : ∀ d ∈ cs.takeWhile isNameChar, isNameChar d = true := fun d hd =>
      List.mem_takeWhile_imp hd
    have hnext : inName (read ++ [c]) = true := by
      rw [inName_concat, hletter, isNameChar_of_isLetter hletter, Bool.true_or, Bool.and_self]
    have hlength : pos + 1 + (cs.takeWhile isNameChar).length =
        (read ++ [c] ++ cs.takeWhile isNameChar).length := by
      simp only [List.length_append, List.length_singleton, hpos]
    have hstands : stands read c = true := by simp [stands, hletter]
    -- the name is read at one stroke: in it no character stops, so the text stops behind it
    have hstops {front d} : Stops read (c :: cs) front d ↔
        Stops (read ++ [c] ++ cs.takeWhile isNameChar) (cs.dropWhile isNameChar) front d := by
      rw [stops_cons_iff_of_stands hstands, ← stops_append_iff_of_inName hnext hword,
        List.takeWhile_append_dropWhile]
    simp only [map_eq_error_iff, ih hlength fun _ => endsName_dropWhile cs, hstops]
  | case5 pos c cs hspace hsign hletter =>
    have hstands : stands read c = false := by
      simp [stands, hspace, hsign, hletter, not_inName_of_ends hends]
    simp only [stops_cons_iff_of_not_stands hstands, Except.error.injEq, hpos]
    exact ⟨fun h => ⟨_, _, ⟨rfl, rfl⟩, h.symm⟩, fun ⟨_, _, ⟨hfront, hd⟩, h⟩ => hfront ▸ hd ▸ h.symm⟩

theorem scan_eq_error_iff {e : ExprError} : scan cs = .error e ↔
    ∃ front c, Stops [] cs front c ∧ e = .unexpectedChar (front.length + 1) c :=
  scanFrom_eq_error_iff rfl nofun

/-- **A text is scanned** when no character stops in it. -/
theorem exists_scan_iff : (∃ ts, scan cs = .ok ts) ↔ ∀ front c, ¬ Stops [] cs front c := by
  constructor
  · rintro ⟨ts, hts⟩ front c hstops
    nomatch hts.symm.trans (scan_eq_error_iff.2 ⟨front, c, hstops, rfl⟩)
  · intro h
    cases hscan : scan cs with
    | ok ts => exact ⟨ts, rfl⟩
    | error e =>
      obtain ⟨front, c, hstops, -⟩ := scan_eq_error_iff.1 hscan
      exact absurd hstops (h front c)

/-! ## What follows does not matter -/

/-- **A text that goes on stops where it did.** -/
theorem Stops.append (h : Stops read cs front c) (ds : List Char) :
    Stops read (cs ++ ds) front c := by
  induction h with
  | here hc => exact .here hc
  | there hc _ ih => exact .there hc ih

/-- The text stops at a character that may not stand there. -/
theorem Stops.stands_eq_false (h : Stops read cs front c) : stands front c = false := by
  induction h with
  | here hc => exact hc
  | there _ _ ih => exact ih

/-- **The text in front of the stop** goes through, and with the next character it does not. -/
theorem Stops.exists_eq (h : Stops read cs front c) :
    ∃ word rest, front = read ++ word ∧ cs = word ++ c :: rest ∧
      (∀ d e, ¬ Stops read word d e) ∧ Stops read (word ++ [c]) front c := by
  induction h with
  | @here read c cs hc => exact ⟨[], cs, by simp, rfl, nofun, .here hc⟩
  | @there read c cs front d hc _ ih =>
    obtain ⟨word, rest, rfl, rfl, hword, hstop⟩ := ih
    refine ⟨c :: word, rest, by simp, rfl, fun d e hstops => ?_, .there hc hstop⟩
    exact hword d e ((stops_cons_iff_of_stands hc).1 hstops)

/-- Nothing stops in what is scanned **when it ends sooner**. -/
theorem exists_scan_of_isPrefix (h : ds <+: cs) (hscan : ∃ ts, scan cs = .ok ts) :
    ∃ ts, scan ds = .ok ts := by
  obtain ⟨rest, rfl⟩ := h
  exact exists_scan_iff.2 fun front c hstops => exists_scan_iff.1 hscan front c (hstops.append rest)

/-- **The longest start that is scanned** is the text in front of the stop. -/
theorem Stops.exists_scan_iff_length_le (h : Stops [] cs front c) (hds : ds <+: cs) :
    (∃ ts, scan ds = .ok ts) ↔ ds.length ≤ front.length := by
  obtain ⟨_, rest, rfl, rfl, hfront, hstop⟩ := h.exists_eq
  constructor
  · intro hscan
    by_contra! hlength
    have hpart : front ++ [c] <+: ds := by
      refine List.prefix_of_prefix_length_le ⟨rest, ?_⟩ hds ?_
      · rw [← List.append_cons]
      · rw [List.length_append]
        exact hlength
    exact exists_scan_iff.1 (exists_scan_of_isPrefix hpart hscan) _ _ hstop
  · intro hlength
    have hpart : ds <+: front := List.prefix_of_prefix_length_le hds ⟨_, rfl⟩ hlength
    exact exists_scan_of_isPrefix hpart (exists_scan_iff.2 hfront)

/-- **No character stops** in a text in which each may stand where it does. -/
theorem not_stops_iff : (∀ front c, ¬ Stops read cs front c) ↔
    ∀ word c rest, cs = word ++ c :: rest → stands (read ++ word) c = true := by
  constructor
  · intro h word c rest heq
    induction word generalizing read cs with
    | nil =>
      rw [List.append_nil, ← Bool.not_eq_false]
      exact fun hc => h read c (heq ▸ .here hc)
    | cons d word ih =>
      have hd : stands read d = true := by
        rw [← Bool.not_eq_false]
        exact fun hd => h read d (heq ▸ .here hd)
      have hrest := ih (fun front c hstops => h front c (heq ▸ .there hd hstops)) rfl
      rwa [List.append_assoc] at hrest
  · intro h front c hstops
    obtain ⟨word, rest, rfl, rfl, -, -⟩ := hstops.exists_eq
    nomatch (h word c rest rfl).symm.trans hstops.stands_eq_false

/-! ## Words -/

/-- In a word, **a name is being read behind its first letter**. -/
theorem inName_append (hfront : EndsName front.reverse) (hcs : ∀ c ∈ cs, isNameChar c = true) :
    inName (front ++ cs) = cs.any isLetter := by
  have hword : ∀ c ∈ cs.reverse, isNameChar c = true := fun c hc => hcs c (List.mem_reverse.1 hc)
  rw [inName, List.rtakeWhile, List.reverse_append, hfront.takeWhile_append hword,
    List.reverse_reverse]

/-- **The word around a character** that belongs into one. -/
theorem nameRun_around (hc : isNameChar c = true) (word rest : List Char) :
    NameRun (word ++ c :: rest) (word.rdropWhile isNameChar)
      (word.rtakeWhile isNameChar ++ c :: rest.takeWhile isNameChar)
      (rest.dropWhile isNameChar) where
  eq := by
    rw [← List.append_assoc, List.rdropWhile_append_rtakeWhile, List.append_assoc, List.cons_append,
      List.takeWhile_append_dropWhile]
  within := by
    simp only [List.mem_append, List.mem_cons]
    rintro d (hd | rfl | hd)
    · exact List.mem_rtakeWhile_imp hd
    · exact hc
    · exact List.mem_takeWhile_imp hd
  starts := by
    rw [List.rdropWhile, List.getLast?_reverse]
    exact endsName_dropWhile word.reverse
  ends := endsName_dropWhile rest

theorem NameRun.endsName_reverse {run rest : List Char} (h : NameRun cs front run rest) :
    EndsName front.reverse := by
  intro c hc
  rw [List.head?_reverse] at hc
  exact h.starts c hc

/-- A character belongs to the passing start of a text when it passes, and all before it do. -/
theorem mem_takeWhile_iff {p : Char → Bool} : c ∈ cs.takeWhile p ↔
    ∃ before behind, cs = before ++ c :: behind ∧ (∀ d ∈ before, p d = true) ∧ p c = true := by
  constructor
  · intro hc
    obtain ⟨before, behind, htake⟩ := List.append_of_mem hc
    refine ⟨before, behind ++ cs.dropWhile p, ?_, fun d hd => ?_, List.mem_takeWhile_imp hc⟩
    · rw [← List.cons_append, ← List.append_assoc, ← htake, List.takeWhile_append_dropWhile]
    · have hmem : d ∈ cs.takeWhile p := by
        rw [htake]
        exact List.mem_append_left _ hd
      exact List.mem_takeWhile_imp hmem
  · rintro ⟨before, behind, rfl, hbefore, hc⟩
    rw [List.takeWhile_append_of_pos hbefore, List.takeWhile_cons_of_pos hc]
    exact List.mem_append_right _ List.mem_cons_self

/-- All characters may stand where they do in a well spelled text, and in no other. -/
theorem forall_stands_iff :
    (∀ word c rest, cs = word ++ c :: rest → stands word c = true) ↔ WellSpelled cs := by
  constructor
  · refine fun h => ⟨fun c hc hname => ?_, fun front run rest hrun c hc => ?_⟩
    · obtain ⟨word, rest, heq⟩ := List.append_of_mem hc
      exact (stands_iff_mem_punctuation hname word).1 (h word c rest heq)
    · obtain ⟨before, behind, rfl, hletters, hletter⟩ := mem_takeWhile_iff.1 hc
      obtain ⟨hbefore, hbehind⟩ := List.forall_mem_append.1 hrun.within
      obtain ⟨hname, -⟩ := List.forall_mem_cons.1 hbehind
      have hread : inName (front ++ before) = false := by
        rw [inName_append hrun.endsName_reverse hbefore, List.any_eq_false]
        simpa using hletters
      have hstands := h (front ++ before) c (behind ++ rest) (by simp [hrun.eq])
      rw [stands_iff_of_isNameChar hname] at hstands
      have hletter : isLetter c = false := by simpa using hletter
      simpa [hread, hletter] using hstands
  · rintro ⟨hpunctuation, hruns⟩ word c rest rfl
    cases hname : isNameChar c with
    | false =>
      exact (stands_iff_mem_punctuation hname word).2 (hpunctuation c (by simp) hname)
    | true =>
      rw [stands_iff_of_isNameChar hname]
      by_contra! hc
      obtain ⟨hconst, hletter, hread⟩ := hc
      have hread : ∀ d ∈ word.rtakeWhile isNameChar, isLetter d = false := by
        simpa [inName] using hread
      have hfirst := hruns _ _ _ (nameRun_around hname word rest) c <| mem_takeWhile_iff.2
        ⟨_, _, rfl, by simpa using hread, by simpa using hletter⟩
      exact not_or.2 hconst hfirst

/-- **The scanned texts are the well spelled ones.** -/
theorem exists_scan_iff_wellSpelled : (∃ ts, scan cs = .ok ts) ↔ WellSpelled cs :=
  exists_scan_iff.trans (not_stops_iff.trans forall_stands_iff)

/-! ## The scan of every text -/

/-- **A text is scanned or refused** by the characters that stand in it.  The well spelled texts are
scanned.  Any other is refused at the character behind the longest start of it that is scanned, with
that character, and so is every text that starts with the same characters.  The tokens of a text
stop where the scan of the normalized text does; a normalized text is neat, and normalized for
good. -/
theorem scan_reads_or_stops :
    (∀ cs, (∃ ts, scan cs = .ok ts) ↔ WellSpelled cs) ∧
    (∀ cs, ¬ WellSpelled cs → ∃ n c, scan cs = .error (.unexpectedChar (n + 1) c) ∧
      cs[n]? = some c ∧
      (∀ start, start <+: cs → ((∃ ts, scan start = .ok ts) ↔ start.length ≤ n)) ∧
      ∀ rest, scan (cs.take (n + 1) ++ rest) = .error (.unexpectedChar (n + 1) c)) ∧
    (∀ cs start, start <+: cs → (∃ ts, scan cs = .ok ts) → ∃ ts, scan start = .ok ts) ∧
    (∀ text e, tokenize text = .error e ↔ scan (normalize text.toList) = .error e) ∧
    ∀ cs, normalize (normalize cs) = normalize cs ∧ Neat (normalize cs) := by
  refine ⟨fun cs => exists_scan_iff_wellSpelled, fun cs hcs => ?_,
    fun cs start => exists_scan_of_isPrefix, fun text e => map_eq_error_iff,
    fun cs => ⟨normalize_normalize cs, neat_normalize cs⟩⟩
  obtain ⟨front, c, hstops⟩ : ∃ front c, Stops [] cs front c := by
    by_contra! h
    exact hcs (exists_scan_iff_wellSpelled.1 (exists_scan_iff.2 h))
  obtain ⟨_, rest, rfl, heq, -, hstop⟩ := hstops.exists_eq
  have htake : cs.take (front.length + 1) = front ++ [c] := by
    rw [heq, List.append_cons, List.take_left' (by simp)]
  refine ⟨front.length, c, scan_eq_error_iff.2 ⟨front, c, hstops, rfl⟩, by simp [heq],
    fun start => hstops.exists_scan_iff_length_le, fun more => ?_⟩
  rw [htake]
  exact scan_eq_error_iff.2 ⟨front, c, hstop.append more, rfl⟩

/-- A digit may stand behind a letter, `0` and `1` anywhere, and an underscore not behind these two:
the scan stops at it whatever follows. -/
theorem scan_reads_or_stops_underscore :
    WellSpelled "A2 10B".toList ∧ ¬ WellSpelled "A2 10_".toList ∧
      (∀ rest, scan ("A2 10_".toList ++ rest) = .error (.unexpectedChar 6 '_')) ∧
      ∃ ts, scan "A2 10".toList = .ok ts := by
  obtain ⟨hread, hstop, hstarts, -, -⟩ := scan_reads_or_stops
  have hwell : WellSpelled "A2 10B".toList :=
    (hread _).1 ⟨[.var "A2", .const true, .const false, .var "B"], by decide +kernel⟩
  have hrefused : scan "A2 10_".toList = .error (.unexpectedChar 6 '_') := by decide +kernel
  have hill : ¬ WellSpelled "A2 10_".toList := fun h => by
    obtain ⟨ts, hts⟩ := (hread _).2 h
    nomatch hts.symm.trans hrefused
  obtain ⟨n, c, hscan, -, -, hrest⟩ := hstop _ hill
  obtain ⟨hn, rfl⟩ := ExprError.unexpectedChar.inj (Except.error.inj (hscan.symm.trans hrefused))
  obtain rfl : n = 5 := Nat.succ.inj hn
  exact ⟨hwell, hill, hrest, hstarts _ _ (by decide) ((hread _).2 hwell)⟩

end TruthTable
