import TruthTable.Proofs.Loading
import TruthTable.Proofs.Setting

/-!
# Proofs/Layering — each setting is what its last source says

A file, the environment and the command line set what they like, and a later source wins.  They are
not looked at alike, though: a variable of the environment is read before anything is merged, and a
value of the file only where nothing has replaced it.  What comes of this is said here setting by
setting, for a file that is absent or holds an object with any fields.  The object is read as a
whole, though: a field that meets a limit of the reader stops the loading, also where nothing would
be left of it.

* `HoldsFields` — the files that are absent or hold an object.
* `Merges` — the value that file and environment leave to a setting.
* `Settings.load_eq_ok_iff`, `Settings.exists_load_iff` — when settings are loaded, and which.
* `Settings.load_congr_of_reads`, `Settings.get_load_congr` — what a setting does not depend on.
* `Arguments.exists_spells_of_get` — an option sets its own setting alone.
* `Command.settings_layered` — all layers, up to the command line.
* `Command.settings_long_integer` — a field that nothing is left of, and that stops the loading.
-/

namespace TruthTable

open Text

/-! ## Files and their fields -/

/-- **A file holds fields**: those of an object, and none where there is no file.  What the object
is does not hang on the limits of any one reader. -/
inductive HoldsFields (files : String → FileContent) : (path : Option String) → Fields → Prop
  | absent {path : Option String} (h : path = none ∨ path = some "") : HoldsFields files path []
  | object {p : String} {bytes : List UInt8} {text : List Char} {fields : Fields} (hp : p ≠ "")
    (hnull : '\x00' ∉ p.toList) (hbytes : files p = .bytes bytes)
    (htext : Utf8.readText bytes = .ok text)
    (hread : ∃ limits, Json.read limits text = .ok (.object fields)) :
    HoldsFields files (some p) fields

variable {limits : Json.Limits} {files files' : String → FileContent} {path path' : Option String}
  {fields fields' : Fields} {env env' : Environment} {s s' : Settings} {k : Setting}

/-- **A file holds fields within the limits**: no limit of the reader is met. -/
structure HoldsWithin (limits : Json.Limits) (files : String → FileContent) (path : Option String)
    (fields : Fields) : Prop where
  holds : HoldsFields files path fields
  within : ¬ Escapes limits files path

theorem Layer.ofPath_eq_ofText {p : String} {bytes : List UInt8} {text : List Char} (hp : p ≠ "")
    (hnull : '\x00' ∉ p.toList) (hbytes : files p = .bytes bytes)
    (htext : Utf8.readText bytes = .ok text) :
    Layer.ofPath limits (some p) files = Layer.ofText limits p text := by
  simp only [Layer.ofPath, filter_given hp, if_neg hnull, hbytes]
  exact Layer.ofFile_eq_ofText p htext

/-- The layer of a file is that of its fields. -/
theorem HoldsWithin.ofPath_eq (h : HoldsWithin limits files path fields) :
    Layer.ofPath limits path files = (Layer.ofFields fields).mapError .config := by
  obtain ⟨hholds, hwithin⟩ := h
  cases hholds with
  | absent h => rcases h with rfl | rfl <;> rfl
  | @object p bytes text _ hp hnull hbytes htext hread =>
    obtain ⟨limits', hread⟩ := hread
    have hpath : Layer.ofPath limits (some p) files = Layer.ofText limits p text :=
      Layer.ofPath_eq_ofText hp hnull hbytes htext
    rw [← Layer.breaksOff_ofPath_iff, hpath, Layer.breaksOff_ofText_iff] at hwithin
    have hread := (Json.read_eq_or_overflows limits hread).resolve_right hwithin
    rw [hpath, Layer.ofText, hread]

/-- A text with a layer is that of an object. -/
theorem Layer.exists_of_ofText {p : String} {text : List Char} {l : Layer}
    (h : Layer.ofText limits p text = .ok l) :
    ∃ fields, Json.read limits text = .ok (.object fields) := by
  revert h
  fun_cases Layer.ofText limits p text with
  | case1 fields hread => exact fun _ => ⟨fields, hread⟩
  | case2 | case3 | case4 | case5 => exact fun h => nomatch h

/-! ## File and environment -/

/-- **The value that file and environment leave to a setting**: what its variable sets, or what the
file says, or the default. -/
inductive Merges (fields : Fields) (env : Environment) (k : Setting) : Json → Prop
  | environment {v : Json} (h : k.Reads (env k.envName) (some v)) : Merges fields env k v
  | file {v : Json} (hunset : k.Reads (env k.envName) none)
    (h : Json.field? fields k.name = some v) : Merges fields env k v
  | default (hunset : k.Reads (env k.envName) none) (h : Json.field? fields k.name = none) :
    Merges fields env k (Draft.get {} k)

/-- A value that is left over has come through all layers. -/
theorem merges_iff {v : Json} : Merges fields env k v ↔ ∃ e, k.Reads (env k.envName) e ∧
    v = e.getD ((Json.field? fields k.name).getD (Draft.get {} k)) := by
  constructor
  · rintro (h | ⟨hunset, h⟩ | ⟨hunset, h⟩)
    · exact ⟨_, h, rfl⟩
    · exact ⟨_, hunset, by rw [h]; rfl⟩
    · exact ⟨_, hunset, by rw [h]; rfl⟩
  · rintro ⟨_ | e, he, rfl⟩
    · cases h : Json.field? fields k.name with
      | none => exact .default he h
      | some v => exact .file he h
    · exact .environment he

/-- File and environment leave one value. -/
theorem Merges.unique {v v' : Json} (h : Merges fields env k v) (h' : Merges fields env k v') :
    v = v' := by
  obtain ⟨e, he, rfl⟩ := merges_iff.1 h
  obtain ⟨e', he', rfl⟩ := merges_iff.1 h'
  rw [he.unique he']

namespace Settings

/-- **Settings are loaded** when the fields name settings, and each setting is the value left to
it, which is valid. -/
theorem load_eq_ok_iff (hfile : HoldsWithin limits files path fields) :
    load limits path files env = .ok s ↔ fields.Known ∧
      ∀ k : Setting, Merges fields env k (s.draft.get k) ∧ k.Valid (s.draft.get k) := by
  simp only [load, hfile.ofPath_eq, bind_eq_ok_iff, mapError_eq_ok_iff, Layer.ofFields_eq_ok_iff,
    Layer.ofEnvironment_eq_ok_iff, Draft.validate_eq_ok_iff, Layer.get_over]
  constructor
  · rintro ⟨file, ⟨hknown, hget⟩, environment, henv, hvalid⟩
    refine ⟨hknown, fun k => ⟨merges_iff.2 ⟨_, henv k, ?_⟩, (hvalid k).2⟩⟩
    rw [← hget]
    exact (hvalid k).1
  · rintro ⟨hknown, h⟩
    choose e he hmerged using fun k => merges_iff.1 (h k).1
    obtain ⟨file, hget⟩ := Layer.exists_get fun k => Json.field? fields k.name
    obtain ⟨environment, henv⟩ := Layer.exists_get e
    refine ⟨file, ⟨hknown, hget⟩, environment, fun k => henv k ▸ he k, fun k => ⟨?_, (h k).2⟩⟩
    rw [henv, hget, hmerged]

/-- Settings that are not loaded are refused. -/
theorem load_ok_or_refused (hfile : HoldsWithin limits files path fields) (env : Environment) :
    (∃ s, load limits path files env = .ok s) ∨
      ∃ c, load limits path files env = .error (.config c) :=
  ok_or_refused (mt breaksOff_load_iff.1 hfile.within)

/-- Where settings are loaded, the file is not past all refusals. -/
theorem within_of_load (h : load limits path files env = .ok s) : ¬ Escapes limits files path := by
  rw [← breaksOff_load_iff, h]
  exact not_breaksOff_ok s

/-- **Valid values** are those of settings. -/
theorem exists_draft_get {v : Setting → Json} (h : ∀ k : Setting, k.Valid (v k)) :
    ∃ s : Settings, ∀ k, s.draft.get k = v k := by
  obtain ⟨n, hmax⟩ := (h .maxVars).exists_int
  obtain ⟨b, hdiff⟩ := (h .onlyDiff).exists_bool
  obtain ⟨name, hmarkup⟩ := (h .markup).exists_text
  exact ⟨⟨n, b, name⟩, Setting.forall_iff.2 ⟨hmax.symm, hdiff.symm, hmarkup.symm⟩⟩

/-- **Settings can be loaded** when the fields name settings, each variable can be read, and each
value left over is valid. -/
theorem exists_load_iff (hfile : HoldsWithin limits files path fields) :
    (∃ s, load limits path files env = .ok s) ↔ fields.Known ∧
      (∀ k : Setting, ∃ v, k.Reads (env k.envName) v) ∧
      ∀ (k : Setting) (v : Json), Merges fields env k v → k.Valid v := by
  simp only [load_eq_ok_iff hfile]
  constructor
  · rintro ⟨s, hknown, h⟩
    refine ⟨hknown, fun k => ?_, fun k v hv => hv.unique (h k).1 ▸ (h k).2⟩
    obtain ⟨e, he, -⟩ := merges_iff.1 (h k).1
    exact ⟨e, he⟩
  · rintro ⟨hknown, hreads, hvalid⟩
    choose e he using hreads
    have hmerges (k : Setting) : Merges fields env k _ := merges_iff.2 ⟨e k, he k, rfl⟩
    obtain ⟨s, hs⟩ := exists_draft_get fun k => hvalid k _ (hmerges k)
    exact ⟨s, hknown, fun k => hs k ▸ ⟨hmerges k, hvalid k _ (hmerges k)⟩⟩

/-- **What the file says of a setting that the environment sets** is no matter. -/
theorem load_congr_of_reads {v : Json} (hfile : HoldsWithin limits files path fields)
    (hfile' : HoldsWithin limits files' path' fields') (h : fields'.besides k = fields.besides k)
    (hset : k.Reads (env k.envName) (some v)) :
    load limits path' files' env = load limits path files env := by
  rw [load, load, hfile.ofPath_eq, hfile'.ofPath_eq]
  obtain ⟨c, hc', hc⟩ | ⟨l', l, hl', hl, hget⟩ := Layer.ofFields_congr h
  · rw [hc, hc']
  rw [hl, hl']
  cases henv : Layer.ofEnvironment env with
  | error c => rfl
  | ok environment =>
    have hk : environment.get k = some v := (Layer.ofEnvironment_eq_ok_iff.1 henv k).unique hset
    have hover : environment.over (l'.over {}) = environment.over (l.over {}) := by
      refine Draft.ext_get fun j => ?_
      simp only [Layer.get_over]
      by_cases hj : j = k
      · subst hj
        rw [hk]
        rfl
      · rw [hget j hj]
    exact congrArg (fun d => d.validate.mapError LoadFailure.config) hover

/-- **What the file says of a setting that the environment does not set** has to be valid. -/
theorem load_refused_of_not_valid {v : Json} (hfile : HoldsWithin limits files path fields)
    (hv : Json.field? fields k.name = some v) (hinvalid : ¬ k.Valid v)
    (hunset : ¬ ∃ e, k.Reads (env k.envName) (some e)) :
    ∃ c, load limits path files env = .error (.config c) := by
  refine (load_ok_or_refused hfile env).resolve_left ?_
  rintro ⟨s, hs⟩
  obtain ⟨-, h⟩ := (load_eq_ok_iff hfile).1 hs
  obtain ⟨hmerges, hvalid⟩ := h k
  obtain ⟨_ | e, he, hget⟩ := merges_iff.1 hmerges
  · rw [hget, hv] at hvalid
    exact hinvalid hvalid
  · exact hunset ⟨e, he⟩

/-- **A setting depends on its own sources alone.** -/
theorem get_load_congr (hfile : HoldsWithin limits files path fields)
    (hfile' : HoldsWithin limits files' path' fields') (hs : load limits path files env = .ok s)
    (hs' : load limits path' files' env' = .ok s')
    (hfield : Json.field? fields' k.name = Json.field? fields k.name)
    (henv : env' k.envName = env k.envName) : s'.draft.get k = s.draft.get k := by
  obtain ⟨-, h⟩ := (load_eq_ok_iff hfile).1 hs
  obtain ⟨-, h'⟩ := (load_eq_ok_iff hfile').1 hs'
  obtain ⟨e, he, hget⟩ := merges_iff.1 (h k).1
  obtain ⟨e', he', hget'⟩ := merges_iff.1 (h' k).1
  rw [henv] at he'
  rw [hget, hget', hfield, he'.unique he]

end Settings

/-! ## The command line -/

namespace Arguments

/-- **An argument spells an option**, as its last one or before that. -/
inductive Spells (o : Opt) : Argument → Prop
  | flag {p : Opt} {name : String} {tail : Option String} {s : Spelled}
    (hs : spelledBy p name tail = .ok s) (h : o ∈ s.flags) : Spells o (.option p name tail)
  | last {p : Opt} {name : String} {tail : Option String} {s : Spelled}
    (hs : spelledBy p name tail = .ok s) (h : o = s.last) : Spells o (.option p name tail)

variable {a a' : Arguments} {o : Opt} {value : Option String} {p : Spelled} {u u' : Walk}
  {as : List Argument}

theorem flag_get (hne : k.option ≠ o) (h : a.flag o = .ok a') :
    a'.layer.get k = a.layer.get k := by
  cases o with
  | help => nomatch h
  | diff =>
    obtain rfl := Except.ok.inj h
    cases k with
    | onlyDiff => exact absurd rfl hne
    | maxVars | markup => rfl
  | maxVars | config | markup | minterms | dot | verbose =>
    obtain rfl := Except.ok.inj h
    rfl

theorem foldlM_flag_get : ∀ {os : List Opt} {a : Arguments}, k.option ∉ os →
    os.foldlM flag a = .ok a' → a'.layer.get k = a.layer.get k
  | [], a, _, h => by
    obtain rfl := Except.ok.inj h
    rfl
  | o :: os, a, hnot, h => by
    obtain ⟨ho, hos⟩ := not_or.1 (mt List.mem_cons.2 hnot)
    obtain ⟨b, hb, h⟩ := bind_eq_ok_iff.1 ((List.foldlM_cons ..).symm.trans h)
    rw [foldlM_flag_get hos h, flag_get ho hb]

theorem set_get {text : String} (hne : k.option ≠ o) (h : a.set text o = .ok a') :
    a'.layer.get k = a.layer.get k := by
  cases o with
  | maxVars =>
    cases hn : Numeral.readInt? text.toList with
    | none => simp only [set, hn, reduceCtorEq] at h
    | some n =>
      simp only [set, hn, Except.ok.injEq] at h
      subst h
      cases k with
      | maxVars => exact absurd rfl hne
      | onlyDiff | markup => rfl
  | markup =>
    simp only [set] at h
    split at h
    · obtain rfl := Except.ok.inj h
      cases k with
      | markup => exact absurd rfl hne
      | maxVars | onlyDiff => rfl
    · cases h
  | help | diff | config | minterms | dot | verbose =>
    obtain rfl := Except.ok.inj h
    rfl

theorem blot_get (hne : k.option ≠ o) : (a.blot o).layer.get k = a.layer.get k := by
  cases o <;> cases k <;> simp_all [blot, Setting.option] <;> rfl

/-- **Options leave a setting alone** that is not theirs. -/
theorem apply_get (hflags : k.option ∉ p.flags) (hlast : k.option ≠ p.last)
    (h : a.apply p value = .ok a') : a'.layer.get k = a.layer.get k := by
  obtain ⟨b, hb, h⟩ := bind_eq_ok_iff.1 h
  rw [← foldlM_flag_get hflags hb]
  cases value with
  | none => exact flag_get hlast h
  | some text =>
    dsimp only at h
    split at h
    · obtain rfl := Except.ok.inj h
      exact blot_get hlast
    · exact set_get hlast h

theorem Takes.subset {rest rest' : List Argument} (h : Takes p rest value rest') :
    rest' ⊆ rest := by
  cases h with
  | own => exact List.Subset.refl _
  | next => exact List.subset_cons_self _ _

/-- **A walk leaves a setting alone** whose option no argument spells. -/
theorem Goes.get_eq (h : Goes u as u') (hnot : ∀ c ∈ as, ¬ Spells k.option c) :
    u'.arguments.layer.get k = u.arguments.layer.get k := by
  induction h with
  | done => rfl
  | @plain u text rest _ _ ih =>
    rw [ih (List.forall_mem_cons.1 hnot).2]
    fun_cases u.plain text <;> rfl
  | @separator u rest _ _ ih =>
    rw [ih (List.forall_mem_cons.1 hnot).2]
    fun_cases u.separator rest.isEmpty <;> rfl
  | unknown _ ih => exact ih (List.forall_mem_cons.1 hnot).2
  | @option u o name tail s rest value rest' b u' hs ht ha _ ih =>
    obtain ⟨hfirst, hrest⟩ := List.forall_mem_cons.1 hnot
    rw [ih fun c hc => hrest c (ht.subset hc)]
    exact apply_get (fun h => hfirst (.flag hs h)) (fun h => hfirst (.last hs h)) ha

/-- **A setting of the command line** comes from an argument that spells its option. -/
theorem exists_spells_of_get {argv : List String} {v : Json} (h : parse argv = .ok a)
    (hv : a.layer.get k = some v) :
    ∃ classes, classifyAll argv = .ok classes ∧ ∃ c ∈ classes, Spells k.option c := by
  obtain ⟨classes, u, hclasses, hgoes, -, -, rfl⟩ := parse_eq_ok_iff.1 h
  refine ⟨classes, hclasses, ?_⟩
  by_contra hnot
  rw [hgoes.get_eq fun c hc hspells => hnot ⟨c, hc, hspells⟩] at hv
  cases k <;> nomatch hv

end Arguments

/-! ## All layers -/

/-- **Settings are loaded layer by layer** from the fields of a file and from the environment. -/
structure Settings.Layered (limits : Json.Limits) (files : String → FileContent)
    (path : Option String) (fields : Fields) (env : Environment) : Prop where
  loaded_iff : (∃ s, load limits path files env = .ok s) ↔ fields.Known ∧
    (∀ k : Setting, ∃ v, k.Reads (env k.envName) v) ∧
    ∀ (k : Setting) (v : Json), Merges fields env k v → k.Valid v
  merged : ∀ s, load limits path files env = .ok s → ∀ k, Merges fields env k (s.draft.get k)
  refused : (¬ ∃ s, load limits path files env = .ok s) →
    ∃ c, load limits path files env = .error (.config c)
  /-- What the file says of a setting is no matter where the environment sets it. -/
  overridden : ∀ k : Setting, (∃ e, k.Reads (env k.envName) (some e)) →
    ∀ files' path' fields', HoldsWithin limits files' path' fields' →
      fields'.besides k = fields.besides k →
        load limits path' files' env = load limits path files env
  /-- Where the environment does not, an invalid value of the file is refused. -/
  not_overridden : ∀ k : Setting, (¬ ∃ e, k.Reads (env k.envName) (some e)) →
    ∀ v, Json.field? fields k.name = some v → ¬ k.Valid v →
      ∃ c, load limits path files env = .error (.config c)
  /-- With other sources of other settings, a setting is the same. -/
  independent : ∀ files' path' fields' env' s s', HoldsFields files' path' fields' →
    load limits path files env = .ok s → load limits path' files' env' = .ok s' →
      ∀ k : Setting, Json.field? fields' k.name = Json.field? fields k.name →
        env' k.envName = env k.envName → s'.draft.get k = s.draft.get k

theorem Settings.layered (hfile : HoldsWithin limits files path fields) (env : Environment) :
    Layered limits files path fields env where
  loaded_iff := exists_load_iff hfile
  merged s hs k := (((load_eq_ok_iff hfile).1 hs).2 k).1
  refused := (load_ok_or_refused hfile env).resolve_left
  overridden := fun k ⟨_, he⟩ _ _ _ hfile' hbesides => load_congr_of_reads hfile hfile' hbesides he
  not_overridden k hunset v hv hinvalid := load_refused_of_not_valid hfile hv hinvalid hunset
  independent files' path' fields' env' s s' hholds hs hs' k hfield henv := by
    have hfile' : HoldsWithin limits files' path' fields' := ⟨hholds, within_of_load hs'⟩
    exact get_load_congr hfile hfile' hs hs' hfield henv

namespace Command

variable {w : World} {a : Arguments} {argv : List String}

/-- **The command line is the last layer**, and what it leaves is validated again. -/
structure Layered (w : World) (argv : List String) (a : Arguments) : Prop where
  settings_iff : ∀ s, settings w a = .ok s ↔
    ∃ s₀, Settings.load w.limits a.config w.files w.environment = .ok s₀ ∧ ∀ k : Setting,
      s.draft.get k = (a.layer.get k).getD (s₀.draft.get k) ∧ k.Valid (s.draft.get k)
  refused : (¬ ∃ s, settings w a = .ok s) →
    ∃ c, settings w a = .error (.config c) ∧ run w argv = .ok (.finished {
      status := 2, out := [], err := ["config error: " ++ c.message], calls := [] })
  compared : ∀ s text1 text2, settings w a = .ok s →
    a.expressions = [some text1, some text2] →
      run w argv = Ending.finished <$> compare w a s text1 text2
  /-- A setting of the command line comes from an argument that spells its option. -/
  spelled : ∀ (k : Setting) (v : Json), a.layer.get k = some v →
    ∃ classes, classifyAll argv = .ok classes ∧ ∃ c ∈ classes, Arguments.Spells k.option c

theorem settings_eq_ok_iff : settings w a = .ok s ↔
    ∃ s₀, Settings.load w.limits a.config w.files w.environment = .ok s₀ ∧ ∀ k : Setting,
      s.draft.get k = (a.layer.get k).getD (s₀.draft.get k) ∧ k.Valid (s.draft.get k) := by
  simp only [settings, bind_eq_ok_iff, mapError_eq_ok_iff, Draft.validate_eq_ok_iff,
    Layer.get_over]

theorem layered (hargs : Arguments.parse argv = .ok a)
    (hwithin : ¬ Escapes w.limits w.files a.config) : Layered w argv a where
  settings_iff _ := settings_eq_ok_iff
  refused hnot := by
    have hends : ¬ BreaksOff (settings w a) := mt breaksOff_settings_iff.1 hwithin
    obtain ⟨c, hc⟩ := (ok_or_refused hends).resolve_left hnot
    exact ⟨c, hc, run_eq_config hargs hc⟩
  compared _ _ _ hs htexts := run_eq hargs htexts hs
  spelled _ _ hv := Arguments.exists_spells_of_get hargs hv

/-- **File, environment and command line, setting by setting.**  Wherever a file is absent or holds
an object, settings are loaded just where all that counts is right, each is what its last source
says, and all else is refused; the options of a command line come on top, each for its own
setting.  Only an object that meets a limit of the reader is past all this, whatever the
environment says. -/
theorem settings_layered (hfile : HoldsFields w.files path fields) :
    (∀ env,
      (Escapes w.limits w.files path →
        ∃ e, Settings.load w.limits path w.files env = .error e ∧ ¬ e.IsRefusal) ∧
      (¬ Escapes w.limits w.files path → Settings.Layered w.limits w.files path fields env)) ∧
    ∀ argv a, Arguments.parse argv = .ok a → a.config = path →
      (Escapes w.limits w.files path → ∃ e, run w argv = .error (.load e) ∧ ¬ e.IsRefusal) ∧
      (¬ Escapes w.limits w.files path → Layered w argv a) := by
  refine ⟨fun env => ⟨Settings.breaksOff_load_iff.2, fun hwithin => ?_⟩, ?_⟩
  · exact Settings.layered ⟨hfile, hwithin⟩ env
  · rintro argv a hargs rfl
    refine ⟨fun hescapes => ?_, layered hargs⟩
    obtain ⟨e, hs, he⟩ := breaksOff_settings_iff.2 hescapes
    exact ⟨e, run_eq_load hargs hs he, he⟩

/-- An option on top of a variable on top of a file whose bound would be refused. -/
theorem settings_layered_option_variable_file :
    let fields : Fields := [(codes "max_vars", .int 0), (codes "markup", .ofText "python")]
    let w : World :=
      { environment := fun name => if name = "BOOLCOMPARE_MAX_VARS" then some "8" else none
        files := fun _ => .bytes
          ("\x7b\"max_vars\": 0, \"markup\": \"python\"\x7d".toList.flatMap String.utf8EncodeChar)
        program := .missing }
    let argv := ["A", "B", "-c", "s.json", "-m", "text"]
    Settings.Layered w.limits w.files (some "s.json") fields w.environment ∧
      Settings.load w.limits (some "s.json") w.files w.environment =
        .ok { maxVars := 8, onlyDiff := false, markup := "python" } ∧
      ∃ a, Arguments.parse argv = .ok a ∧ Layered w argv a ∧
        settings w a = .ok { maxVars := 8, onlyDiff := false, markup := "text" } := by
  intro fields w argv
  have hread : Json.read .standard
      (Utf8.unifyNewlines "\x7b\"max_vars\": 0, \"markup\": \"python\"\x7d".toList) =
        .ok (.object fields) := by
    rfl
  have hfile : HoldsFields w.files (some "s.json") fields :=
    .object (by decide) (by decide) rfl (Utf8.readText_eq_ok_iff.2 ⟨_, rfl, rfl⟩) ⟨_, hread⟩
  have hs₀ : (Settings.load w.limits (some "s.json") w.files w.environment).toOption =
      some { maxVars := 8, onlyDiff := false, markup := "python" } := by
    decide +kernel
  have hrun : (Arguments.parse argv).toOption.map (fun a => (a.config, (settings w a).toOption)) =
      some (some "s.json", some { maxVars := 8, onlyDiff := false, markup := "text" }) := by
    decide +kernel
  obtain ⟨a, ha, hs⟩ := Option.map_eq_some_iff.1 hrun
  obtain ⟨hconfig, hs⟩ := Prod.mk.inj hs
  have hargs := toOption_eq_some_iff.1 ha
  have hs₀ := toOption_eq_some_iff.1 hs₀
  have hwithin : ¬ Escapes w.limits w.files (some "s.json") := Settings.within_of_load hs₀
  obtain ⟨hload, hcommand⟩ := settings_layered hfile
  exact ⟨(hload _).2 hwithin, hs₀, a, hargs, (hcommand argv a hargs hconfig).2 hwithin,
    toOption_eq_some_iff.1 hs⟩

/-- **An integer past the limit** stops the loading, although nothing would be left of it: with one
digit more the settings are loaded. -/
theorem settings_long_integer :
    let text : List Char := "\x7b\"max_vars\": ".toList ++ (List.replicate 4301 '1' ++ ['\x7d'])
    let w : World :=
      { environment := fun name => if name = "BOOLCOMPARE_MAX_VARS" then some "8" else none
        files := fun _ => .bytes (text.flatMap String.utf8EncodeChar)
        program := .missing }
    Settings.load ⟨4301, 1⟩ (some "s.json") w.files w.environment = .ok { maxVars := 8 } ∧
      (∃ fields, HoldsFields w.files (some "s.json") fields ∧ fields.Known ∧
        (∀ k : Setting, ∃ v, k.Reads (w.environment k.envName) v) ∧
        ∀ (k : Setting) (v : Json), Merges fields w.environment k v → k.Valid v) ∧
      ∃ e, Settings.load w.limits (some "s.json") w.files w.environment = .error e ∧
        ¬ e.IsRefusal := by
  intro text w
  have htext : Utf8.readText (text.flatMap String.utf8EncodeChar) = .ok (Utf8.unifyNewlines text) :=
    Utf8.readText_eq_ok_iff.2 ⟨text, rfl, rfl⟩
  have hpath (limits : Json.Limits) : Layer.ofPath limits (some "s.json") w.files =
      Layer.ofText limits "s.json" (Utf8.unifyNewlines text) :=
    Layer.ofPath_eq_ofText (by decide) (by decide) rfl htext
  have hload : (Settings.load ⟨4301, 1⟩ (some "s.json") w.files w.environment).toOption =
      some { maxVars := 8 } := by
    rw [Settings.load, hpath]
    decide +kernel
  have hload := toOption_eq_some_iff.1 hload
  have hends : BreaksOff (Settings.load w.limits (some "s.json") w.files w.environment) := by
    rw [Settings.load, hpath]
    decide +kernel
  obtain ⟨layer, hlayer, -⟩ := bind_eq_ok_iff.1 hload
  obtain ⟨fields, hread⟩ := Layer.exists_of_ofText ((hpath _).symm.trans hlayer)
  have hfile : HoldsFields w.files (some "s.json") fields :=
    .object (by decide) (by decide) rfl htext ⟨_, hread⟩
  have hwithin : HoldsWithin ⟨4301, 1⟩ w.files (some "s.json") fields :=
    ⟨hfile, Settings.within_of_load hload⟩
  exact ⟨hload, ⟨fields, hfile, (Settings.exists_load_iff hwithin).1 ⟨_, hload⟩⟩, hends⟩

end Command

end TruthTable
