import TruthTable.Proofs.Reading
import TruthTable.Proofs.Utf8
import TruthTable.Proofs.Verdict

/-!
# Proofs/Loading — settings are loaded, or refused, or their file is past all refusals

A refusal of settings is told, with a status of its own.  What breaks the command off instead lies
in the file alone: in a path that holds a null character, in bytes that are no text, and in a text
that meets a limit of the JSON reader.  Whatever else the file holds, whatever the environment says,
and also where the system refuses the file, the settings are valid or they are refused.

* `BreaksOff` — an end that is no refusal, and how it comes about in a sequence.
* `FileContent.Unreadable`, `Escapes` — the files that no refusal covers.
* `Settings.breaksOff_load_iff` — the loading breaks off at these.
* `Command.settings_valid_or_refused` — what this means for the command.
-/

namespace TruthTable

open Text

/-! ## Ends that are no refusal -/

/-- The failure is a refusal. -/
def LoadFailure.IsRefusal (e : LoadFailure) : Prop := ∃ c, e = .config c

instance : (e : LoadFailure) → Decidable e.IsRefusal
  | .config c => isTrue ⟨c, rfl⟩
  | .undecodable _ | .digits _ | .tooDeep | .nullInPath => isFalse fun ⟨_, h⟩ => nomatch h

/-- **A loading breaks off**: it fails, and that is no refusal. -/
def BreaksOff {α : Type} (x : Except LoadFailure α) : Prop := ∃ e, x = .error e ∧ ¬ e.IsRefusal

section BreaksOff

variable {α β : Type}

theorem not_breaksOff_ok (a : α) : ¬ BreaksOff (.ok a) := fun ⟨_, h, _⟩ => nomatch h

theorem breaksOff_error_iff {e : LoadFailure} :
    BreaksOff (.error e : Except LoadFailure α) ↔ ¬ e.IsRefusal := by
  constructor
  · rintro ⟨_, h, he⟩
    obtain rfl := Except.error.inj h
    exact he
  · exact fun he => ⟨e, rfl, he⟩

instance : (x : Except LoadFailure α) → Decidable (BreaksOff x)
  | .ok a => isFalse (not_breaksOff_ok a)
  | .error _ => decidable_of_iff _ breaksOff_error_iff.symm

theorem not_breaksOff_config (c : ConfigError) :
    ¬ BreaksOff (.error (.config c) : Except LoadFailure α) :=
  fun h => breaksOff_error_iff.1 h ⟨c, rfl⟩

/-- **What may only be refused** does not break off. -/
theorem not_breaksOff_refuse : ∀ x : Except ConfigError α,
    ¬ BreaksOff (x.mapError LoadFailure.config)
  | .ok a => not_breaksOff_ok a
  | .error c => not_breaksOff_config c

/-- **A sequence breaks off** where one of its parts does. -/
theorem breaksOff_bind_iff {x : Except LoadFailure α} {f : α → Except LoadFailure β} :
    BreaksOff (x >>= f) ↔ BreaksOff x ∨ ∃ a, x = .ok a ∧ BreaksOff (f a) := by
  simp only [BreaksOff, bind_eq_error_iff, or_and_right, exists_or]
  refine or_congr_right ⟨?_, ?_⟩
  · rintro ⟨e, ⟨a, ha, hf⟩, he⟩
    exact ⟨a, ha, e, hf, he⟩
  · rintro ⟨a, ha, e, hf, he⟩
    exact ⟨e, ⟨a, ha, hf⟩, he⟩

theorem ok_or_refused {x : Except LoadFailure α} (h : ¬ BreaksOff x) :
    (∃ a, x = .ok a) ∨ ∃ c, x = .error (.config c) := by
  cases x with
  | ok a => exact .inl ⟨a, rfl⟩
  | error e =>
    obtain ⟨c, rfl⟩ := not_not.1 (mt breaksOff_error_iff.2 h)
    exact .inr ⟨c, rfl⟩

end BreaksOff

/-! ## Files past all refusals -/

/-- **What is in a file is past all refusals**: its bytes are no text, or the text meets a limit of
the reader. -/
inductive FileContent.Unreadable (limits : Json.Limits) : FileContent → Prop
  | undecodable {bytes : List UInt8}
    (hbytes : ∀ cs : List Char, bytes ≠ cs.flatMap String.utf8EncodeChar) :
    Unreadable limits (.bytes bytes)
  | overflow {bytes : List UInt8} {cs : List Char} {f : Json.Fault}
    (hbytes : bytes = cs.flatMap String.utf8EncodeChar)
    (h : Json.Overflows limits (Utf8.unifyNewlines cs) f) : Unreadable limits (.bytes bytes)

/-- **A file is past all refusals**, for a null character in its path or for what is in it. -/
def Escapes (limits : Json.Limits) (files : String → FileContent) (path : Option String) : Prop :=
  ∃ p, path = some p ∧ p ≠ "" ∧ ('\x00' ∈ p.toList ∨ (files p).Unreadable limits)

variable {limits : Json.Limits} {path : Option String} {files : String → FileContent}
  {env : Environment}

/-- **The text of a file is past all refusals** where it meets a limit of the reader. -/
theorem Layer.breaksOff_ofText_iff (p : String) {text : List Char} :
    BreaksOff (Layer.ofText limits p text) ↔ ∃ f, Json.Overflows limits text f := by
  rw [Json.exists_overflows_iff, Layer.ofText]
  cases hread : Json.read limits text with
  | ok v =>
    refine iff_of_false ?_ fun ⟨_, _, hf⟩ => nomatch hf
    cases v with
    | object fields => exact not_breaksOff_refuse _
    | null | bool | int | float | string | array => exact not_breaksOff_config _
  | error f =>
    cases f with
    | malformed problem position =>
      refine iff_of_false (not_breaksOff_config _) ?_
      rintro ⟨f, hf, heq⟩
      exact hf ⟨_, _, (Except.error.inj heq).symm⟩
    | digits | tooDeep =>
      refine iff_of_true ⟨_, rfl, ?_⟩ ⟨_, ?_, rfl⟩
      · exact fun ⟨_, h⟩ => nomatch h
      · exact fun ⟨_, _, h⟩ => nomatch h

theorem Layer.ofFile_eq_ofText (p : String) {bytes : List UInt8} {text : List Char}
    (h : Utf8.readText bytes = .ok text) :
    Layer.ofFile limits p (.bytes bytes) = Layer.ofText limits p text := by
  rw [Layer.ofFile, h]
  rfl

/-- **What is read from a file breaks off** where the file is past all refusals. -/
theorem Layer.breaksOff_ofFile_iff (p : String) {content : FileContent} :
    BreaksOff (Layer.ofFile limits p content) ↔ content.Unreadable limits := by
  cases content with
  | refused code reason =>
    exact iff_of_false (not_breaksOff_config _) fun h => nomatch h
  | bytes bytes =>
    cases h : Utf8.readText bytes with
    | error e =>
      have hnot (cs : List Char) : bytes ≠ cs.flatMap String.utf8EncodeChar := fun hcs => by
        rw [Utf8.readText_eq_ok_iff.2 ⟨cs, hcs, rfl⟩] at h
        nomatch h
      rw [Layer.ofFile, h]
      exact iff_of_true ⟨_, rfl, fun h => nomatch h⟩ (.undecodable hnot)
    | ok text =>
      rw [Layer.ofFile_eq_ofText p h, Layer.breaksOff_ofText_iff]
      constructor
      · rintro ⟨f, hf⟩
        obtain ⟨cs, hbytes, rfl⟩ := Utf8.readText_eq_ok_iff.1 h
        exact .overflow hbytes hf
      · intro hunreadable
        cases hunreadable with
        | undecodable hnot =>
          obtain ⟨cs, hbytes, -⟩ := Utf8.readText_eq_ok_iff.1 h
          exact absurd hbytes (hnot cs)
        | overflow hbytes hf =>
          have htext := Utf8.readText_eq_ok_iff.2 ⟨_, hbytes, rfl⟩
          obtain rfl := Except.ok.inj (htext.symm.trans h)
          exact ⟨_, hf⟩

theorem Layer.breaksOff_ofPath_iff :
    BreaksOff (Layer.ofPath limits path files) ↔ Escapes limits files path := by
  have hgiven (p : String) :
      path.filter (· ≠ "") = some p ↔ path = some p ∧ p ≠ "" := by
    rw [Option.filter_eq_some_iff, decide_eq_true_iff]
  fun_cases Layer.ofPath limits path files with
  | case1 hnone =>
    refine iff_of_false (not_breaksOff_ok _) ?_
    rintro ⟨p, hpath, hp, -⟩
    nomatch hnone.symm.trans ((hgiven p).2 ⟨hpath, hp⟩)
  | case2 p hsome hnull =>
    obtain ⟨hpath, hp⟩ := (hgiven p).1 hsome
    exact iff_of_true ⟨_, rfl, fun ⟨_, h⟩ => nomatch h⟩ ⟨p, hpath, hp, .inl hnull⟩
  | case3 p hsome hnull =>
    obtain ⟨rfl, hp⟩ := (hgiven p).1 hsome
    rw [Layer.breaksOff_ofFile_iff]
    constructor
    · exact fun h => ⟨p, rfl, hp, .inr h⟩
    · rintro ⟨q, hq, -, h⟩
      obtain rfl := Option.some.inj hq
      exact h.resolve_left hnull

/-- **The loading of settings breaks off** where the file is past all refusals. -/
theorem Settings.breaksOff_load_iff :
    BreaksOff (Settings.load limits path files env) ↔ Escapes limits files path := by
  rw [Settings.load, breaksOff_bind_iff, Layer.breaksOff_ofPath_iff]
  refine or_iff_left ?_
  rintro ⟨file, -, h⟩
  obtain h | ⟨environment, -, h⟩ := breaksOff_bind_iff.1 h
  · exact not_breaksOff_refuse _ h
  · exact not_breaksOff_refuse _ h

theorem Settings.valid_of_load {s : Settings} (h : Settings.load limits path files env = .ok s) :
    s.Valid := by
  obtain ⟨file, -, h⟩ := bind_eq_ok_iff.1 h
  obtain ⟨environment, -, h⟩ := bind_eq_ok_iff.1 h
  exact Draft.valid_of_validate (mapError_eq_ok_iff.1 h)

namespace Command

variable {w : World} {a : Arguments} {argv : List String}

theorem breaksOff_settings_iff :
    BreaksOff (settings w a) ↔ Escapes w.limits w.files a.config := by
  rw [settings, breaksOff_bind_iff, Settings.breaksOff_load_iff]
  refine or_iff_left ?_
  rintro ⟨s, -, h⟩
  exact not_breaksOff_refuse _ h

theorem run_eq_load {e : LoadFailure} (hargs : Arguments.parse argv = .ok a)
    (hs : settings w a = .error e) (he : ¬ e.IsRefusal) : run w argv = .error (.load e) := by
  cases e with
  | config c => exact absurd ⟨c, rfl⟩ he
  | undecodable | digits | tooDeep | nullInPath => simp only [run, hargs, hs]

/-- **Settings are valid or refused**, and a refusal ends the command with its wording and with a
status of its own, unless the file is past all refusals.  With such a file the loading fails without
a refusal, and the command has no status. -/
theorem settings_valid_or_refused (w : World) :
    (∀ path env,
      (Escapes w.limits w.files path →
        ∃ e, Settings.load w.limits path w.files env = .error e ∧ ¬ e.IsRefusal) ∧
      (¬ Escapes w.limits w.files path →
        (∃ s, Settings.load w.limits path w.files env = .ok s ∧ s.Valid) ∨
          ∃ c, Settings.load w.limits path w.files env = .error (.config c))) ∧
    ∀ argv a, Arguments.parse argv = .ok a →
      (Escapes w.limits w.files a.config → ∃ e, run w argv = .error (.load e) ∧ ¬ e.IsRefusal) ∧
      (¬ Escapes w.limits w.files a.config → (∃ s, settings w a = .ok s ∧ s.Valid) ∨
        ∃ c, settings w a = .error (.config c) ∧ run w argv = .ok (.finished {
          status := 2, out := [], err := ["config error: " ++ c.message], calls := [] })) := by
  refine ⟨fun path env => ⟨?_, fun hnot => ?_⟩, fun argv a hargs => ⟨fun h => ?_, fun hnot => ?_⟩⟩
  · exact Settings.breaksOff_load_iff.2
  · refine (ok_or_refused (mt Settings.breaksOff_load_iff.1 hnot)).imp_left ?_
    rintro ⟨s, hs⟩
    exact ⟨s, hs, Settings.valid_of_load hs⟩
  · obtain ⟨e, hs, he⟩ := breaksOff_settings_iff.2 h
    exact ⟨e, run_eq_load hargs hs he, he⟩
  · refine (ok_or_refused (mt breaksOff_settings_iff.1 hnot)).imp ?_ ?_
    · rintro ⟨s, hs⟩
      exact ⟨s, hs, settings_valid hs⟩
    · rintro ⟨c, hs⟩
      exact ⟨c, hs, run_eq_config hargs hs⟩

/-- A file that leaves no room for a variable is refused. -/
theorem settings_valid_or_refused_no_room :
    let text := "\x7b\"max_vars\": 0\x7d"
    let w : World :=
      { environment := fun _ => none
        files := fun _ => .bytes (text.toList.flatMap String.utf8EncodeChar)
        program := .missing }
    let argv := ["A", "B", "--config", "s.json"]
    ∃ a, Arguments.parse argv = .ok a ∧ ¬ Escapes w.limits w.files a.config ∧
      ∃ c, settings w a = .error (.config c) ∧ run w argv = .ok (.finished {
        status := 2, out := [], err := ["config error: " ++ c.message], calls := [] }) := by
  intro text w argv
  have hread : (Arguments.parse argv).toOption.map (·.config) = some (some "s.json") := by
    decide +kernel
  obtain ⟨a, ha, hconfig⟩ := Option.map_eq_some_iff.1 hread
  have hargs : Arguments.parse argv = .ok a := toOption_eq_some_iff.1 ha
  have hends : ¬ BreaksOff (Settings.load w.limits (some "s.json") w.files w.environment) := by
    decide +kernel
  have hfails :
      (Settings.load w.limits (some "s.json") w.files w.environment).toOption.isNone = true := by
    decide +kernel
  rw [← hconfig] at hends hfails
  have hnot : ¬ Escapes w.limits w.files a.config := mt Settings.breaksOff_load_iff.2 hends
  obtain ⟨-, hrun⟩ := settings_valid_or_refused w
  refine ⟨a, hargs, hnot, ((hrun argv a hargs).2 hnot).resolve_left ?_⟩
  rintro ⟨s, hs, -⟩
  obtain ⟨s', hs', -⟩ := bind_eq_ok_iff.1 hs
  rw [hs'] at hfails
  nomatch hfails

/-- **Bytes that are no text** break the command off, where a missing file would be refused. -/
theorem run_undecodable :
    let w : World :=
      { environment := fun _ => none, files := fun _ => .bytes [0xff], program := .missing }
    let e : LoadFailure := .undecodable ⟨0, 1, 0xff, .invalidStart⟩
    Settings.load w.limits (some "s.json") w.files w.environment = .error e ∧ ¬ e.IsRefusal ∧
      run w ["A", "B", "--config", "s.json"] = .error (.load e) := by
  intro w e
  have hread : (Arguments.parse ["A", "B", "--config", "s.json"]).toOption.map (·.config) =
      some (some "s.json") := by
    decide +kernel
  obtain ⟨a, ha, hconfig⟩ := Option.map_eq_some_iff.1 hread
  have hload : Settings.load w.limits (some "s.json") w.files w.environment = .error e := rfl
  have hs : settings w a = .error e := by
    rw [settings, hconfig, hload]
    rfl
  have he : ¬ e.IsRefusal := fun ⟨_, h⟩ => nomatch h
  exact ⟨hload, he, run_eq_load (toOption_eq_some_iff.1 ha) hs he⟩

end Command

end TruthTable
