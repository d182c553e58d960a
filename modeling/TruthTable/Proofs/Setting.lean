import Mathlib.Logic.Basic
import TruthTable.Options
import TruthTable.Proofs.Outcome

/-!
# Proofs/Setting — one setting at a time

Drafts, layers and checks treat three settings side by side, in three fields of their own.  Here a
setting is an index instead: it has a name in a file, a variable of the environment and values that
are valid, and each reading of a layer is a statement about every setting.

* `Setting.Valid`, `Setting.Reads` — the values of a setting, and what its variable sets.
* `Draft.validate_eq_ok_iff` — the settings of a draft.
* `Layer.ofFields_eq_ok_iff`, `Layer.ofFields_congr` — the layer of an object.
* `Layer.ofEnvironment_eq_ok_iff` — the layer of the environment.
-/

namespace TruthTable

open Text

/-! ## The settings -/

/-- The **three settings**. -/
inductive Setting where
  | maxVars
  | onlyDiff
  | markup
  deriving DecidableEq

namespace Setting

theorem forall_iff {p : Setting → Prop} : (∀ k, p k) ↔ p maxVars ∧ p onlyDiff ∧ p markup := by
  constructor
  · exact fun h => ⟨h _, h _, h _⟩
  · rintro ⟨hmax, hdiff, hmarkup⟩ k
    cases k with
    | maxVars => exact hmax
    | onlyDiff => exact hdiff
    | markup => exact hmarkup

/-- The name of a setting in a file. -/
def name : Setting → String
  | maxVars => "max_vars"
  | onlyDiff => "only_diff"
  | markup => "markup"

/-- The variable of the environment that sets a setting. -/
def envName : Setting → String
  | maxVars => maxVarsVariable
  | onlyDiff => onlyDiffVariable
  | markup => markupVariable

/-- The option that sets a setting. -/
def option : Setting → Opt
  | maxVars => .maxVars
  | onlyDiff => .diff
  | markup => .markup

theorem mem_fieldNames_iff {key : List Nat} :
    key ∈ fieldNames.map codes ↔ ∃ k : Setting, key = codes k.name := by
  simp only [fieldNames, List.map_cons, List.map_nil, List.mem_cons, List.not_mem_nil, or_false]
  constructor
  · rintro (rfl | rfl | rfl)
    · exact ⟨maxVars, rfl⟩
    · exact ⟨onlyDiff, rfl⟩
    · exact ⟨markup, rfl⟩
  · rintro ⟨k, rfl⟩
    cases k <;> simp [name]

/-- Two settings have two names. -/
theorem codes_name_inj {j k : Setting} (h : codes j.name = codes k.name) : j = k := by
  revert h
  cases j <;> cases k <;> decide

/-- A value is **valid** for a setting. -/
inductive Valid : Setting → Json → Prop
  | maxVars {n : Int} (h : 1 ≤ n) : Valid maxVars (.int n)
  | onlyDiff (b : Bool) : Valid onlyDiff (.bool b)
  | markup (m : Markup) : Valid markup (.ofText m.name)

/-- **What a variable of the environment sets**, if it can be read.  One that is not there sets
nothing, and neither does an empty one, except that it turns `onlyDiff` off. -/
inductive Reads : Setting → (raw : Option String) → (v : Option Json) → Prop
  | unset (k : Setting) : Reads k none none
  | emptyMaxVars : Reads maxVars (some "") none
  | emptyMarkup : Reads markup (some "") none
  | maxVars {raw : String} {n : Int} (hraw : raw ≠ "")
    (h : Numeral.readInt? raw.toList = some n) : Reads maxVars (some raw) (some (.int n))
  | onlyDiff {raw : String} {b : Bool} (h : readBool onlyDiffVariable raw = .ok b) :
    Reads onlyDiff (some raw) (some (.bool b))
  | markup {raw : String} (hraw : raw ≠ "") :
    Reads markup (some raw) (some (.ofText (String.ofList (trim isBlank raw.toList))))

/-- A variable sets one thing. -/
theorem Reads.unique {k : Setting} {raw : Option String} {v v' : Option Json}
    (h : k.Reads raw v) (h' : k.Reads raw v') : v = v' := by
  cases h <;> cases h' <;> simp_all

end Setting

/-- The value of a setting in a draft. -/
def Draft.get (d : Draft) : Setting → Json
  | .maxVars => d.maxVars
  | .onlyDiff => d.onlyDiff
  | .markup => d.markup

/-- What a layer sets a setting to. -/
def Layer.get (l : Layer) : Setting → Option Json
  | .maxVars => l.maxVars
  | .onlyDiff => l.onlyDiff
  | .markup => l.markup

/-- A draft is known by its values. -/
theorem Draft.ext_get {d e : Draft} (h : ∀ k, d.get k = e.get k) : d = e := by
  obtain ⟨hmax, hdiff, hmarkup⟩ := Setting.forall_iff.1 h
  cases d
  cases e
  congr

/-- A layer may set each setting to anything. -/
theorem Layer.exists_get (v : Setting → Option Json) : ∃ l : Layer, ∀ k, l.get k = v k :=
  ⟨⟨v .maxVars, v .onlyDiff, v .markup⟩, Setting.forall_iff.2 ⟨rfl, rfl, rfl⟩⟩

/-- **A layer wins setting by setting.** -/
theorem Layer.get_over (l : Layer) (d : Draft) (k : Setting) :
    (l.over d).get k = (l.get k).getD (d.get k) := by
  cases k <;> rfl

/-! ## Validation -/

/-- The text of a value is the one that the value is of. -/
theorem Json.text?_eq_some_iff {v : Json} {s : String} : v.text? = some s ↔ .ofText s = v := by
  constructor
  · intro h
    cases v with
    | string units =>
      rw [text?] at h
      split at h
      · rename_i hvalid
        have hunits : (units.map Char.ofNat).map Char.toNat = units := by
          rw [List.map_map]
          refine (List.map_congr_left fun n hn => ?_).trans (List.map_id _)
          have hn := of_decide_eq_true (List.all_eq_true.1 hvalid n hn)
          rw [Function.comp_apply, Char.ofNat, dif_pos hn]
          rfl
        rw [← Option.some.inj h, ofText, codes, String.toList_ofList, hunits]
      · nomatch h
    | null | bool | int | float | array | object => nomatch h
  · rintro rfl
    have hvalid : ((codes s).all fun n => n.isValidChar) = true := by
      rw [codes, List.all_map, List.all_eq_true]
      exact fun c _ => decide_eq_true c.valid
    have hunits : (codes s).map Char.ofNat = s.toList := by
      rw [codes, List.map_map]
      exact List.map_id'' Char.ofNat_toNat _
    rw [ofText, text?, if_pos hvalid, hunits, String.ofList_toList]

theorem checkMaxVars_eq_ok_iff {v : Json} {n : Int} :
    checkMaxVars v = .ok n ↔ .int n = v ∧ 1 ≤ n := by
  constructor
  · intro h
    refine ⟨?_, le_of_checkMaxVars h⟩
    unfold checkMaxVars at h
    split at h
    · split at h <;> simp_all
    · nomatch h
  · rintro ⟨rfl, hn⟩
    exact if_pos hn

theorem checkOnlyDiff_eq_ok_iff {v : Json} {b : Bool} : checkOnlyDiff v = .ok b ↔ .bool b = v := by
  cases v <;> simp [checkOnlyDiff, eq_comm]

theorem checkMarkup_eq_ok_iff {v : Json} {s : String} :
    checkMarkup v = .ok s ↔ .ofText s = v ∧ s ∈ Markup.names := by
  rw [← Json.text?_eq_some_iff]
  constructor
  · intro h
    refine ⟨?_, mem_of_checkMarkup h⟩
    unfold checkMarkup at h
    split at h
    · split at h <;> simp_all
    · nomatch h
  · rintro ⟨htext, hs⟩
    rw [checkMarkup, htext]
    exact if_pos hs

namespace Setting

theorem Valid.exists_int {v : Json} (h : Setting.maxVars.Valid v) : ∃ n : Int, v = .int n := by
  cases h
  exact ⟨_, rfl⟩

theorem Valid.exists_bool {v : Json} (h : Setting.onlyDiff.Valid v) : ∃ b : Bool, v = .bool b := by
  cases h
  exact ⟨_, rfl⟩

theorem Valid.exists_text {v : Json} (h : Setting.markup.Valid v) :
    ∃ s : String, v = .ofText s := by
  cases h
  exact ⟨_, rfl⟩

theorem valid_maxVars_iff {n : Int} : Valid maxVars (.int n) ↔ 1 ≤ n :=
  ⟨fun (.maxVars h) => h, .maxVars⟩

theorem valid_markup_iff {s : String} : Valid markup (.ofText s) ↔ s ∈ Markup.names := by
  rw [Markup.mem_names_iff]
  constructor
  · generalize hv : Json.ofText s = v
    rintro (_ | _ | ⟨m⟩)
    refine ⟨m, Option.some.inj ?_⟩
    rw [← Json.text?_eq_some_iff.2 rfl, ← Json.text?_eq_some_iff.2 rfl, hv]
  · rintro ⟨m, rfl⟩
    exact .markup m

end Setting

/-- **A draft gives the settings that have its values**, if each is valid. -/
theorem Draft.validate_eq_ok_iff {d : Draft} {s : Settings} :
    d.validate = .ok s ↔ ∀ k : Setting, s.draft.get k = d.get k ∧ k.Valid (s.draft.get k) := by
  have hfields : d.validate = .ok s ↔ checkMaxVars d.maxVars = .ok s.maxVars ∧
      checkOnlyDiff d.onlyDiff = .ok s.onlyDiff ∧ checkMarkup d.markup = .ok s.markup := by
    simp only [validate, bind_eq_ok_iff]
    constructor
    · rintro ⟨n, hn, b, hb, m, hm, hs⟩
      obtain rfl := Except.ok.inj hs
      exact ⟨hn, hb, hm⟩
    · rintro ⟨hn, hb, hm⟩
      exact ⟨_, hn, _, hb, _, hm, rfl⟩
  rw [hfields, checkMaxVars_eq_ok_iff, checkOnlyDiff_eq_ok_iff, checkMarkup_eq_ok_iff,
    Setting.forall_iff, ← Setting.valid_maxVars_iff, ← Setting.valid_markup_iff]
  exact and_congr_right fun _ => and_congr_left fun _ => (and_iff_left (.onlyDiff _)).symm

/-! ## The file -/

/-- The **fields of an object**, under names of any code points. -/
abbrev Fields := List (List Nat × Json)

namespace Fields

/-- The names that name no setting. -/
def unknown (fields : Fields) : List (List Nat) :=
  (fields.map Prod.fst).filter fun key => !(fieldNames.map codes).contains key

/-- Each field **names a setting**. -/
def Known (fields : Fields) : Prop := ∀ key ∈ fields.map Prod.fst, ∃ k : Setting, key = codes k.name

/-- The fields besides those of one setting. -/
def besides (fields : Fields) (k : Setting) : Fields :=
  fields.filter fun field => field.1 ≠ codes k.name

theorem unknown_eq_nil_iff {fields : Fields} : fields.unknown = [] ↔ fields.Known := by
  simp only [unknown, List.filter_eq_nil_iff, Bool.not_eq_true', Bool.not_eq_false,
    List.contains_iff_mem, Setting.mem_fieldNames_iff]
  rfl

theorem unknown_besides (fields : Fields) (k : Setting) :
    (fields.besides k).unknown = fields.unknown := by
  have hk : codes k.name ∈ fieldNames.map codes := Setting.mem_fieldNames_iff.2 ⟨k, rfl⟩
  rw [unknown, unknown, besides, List.filter_map, List.filter_map, List.filter_filter]
  refine congrArg _ (List.filter_congr fun field _ => ?_)
  rw [Bool.and_eq_left_iff_imp]
  intro hunknown
  refine decide_eq_true fun heq => ?_
  rw [Function.comp_apply, heq, List.contains_iff_mem.2 hk] at hunknown
  exact Bool.false_ne_true hunknown

/-- What the fields of one setting are is no matter for another. -/
theorem field?_besides (fields : Fields) {j k : Setting} (hne : j ≠ k) :
    Json.field? (fields.besides k) j.name = Json.field? fields j.name := by
  have hcodes : codes j.name ≠ codes k.name := mt Setting.codes_name_inj hne
  induction fields with
  | nil => rfl
  | cons field fields ih =>
    obtain ⟨key, v⟩ := field
    by_cases hkey : key = codes k.name
    · have hlookup : (codes j.name == key) = false := beq_false_of_ne (hkey ▸ hcodes)
      rw [besides, List.filter_cons_of_neg (by simpa)]
      rw [Json.field?, Json.field?, List.lookup_cons, hlookup]
      exact ih
    · rw [besides, List.filter_cons_of_pos (by simpa)]
      rw [Json.field?, Json.field?, List.lookup_cons, List.lookup_cons]
      split
      · rfl
      · exact ih

end Fields

theorem Layer.ofFields_eq (fields : Fields) : Layer.ofFields fields =
    if fields.unknown = [] then .ok {
      maxVars := Json.field? fields "max_vars"
      onlyDiff := Json.field? fields "only_diff"
      markup := Json.field? fields "markup" }
    else .error (.unknownKeys (Increasing.ofList fields.unknown)) := by
  have hunknown : (fields.map Prod.fst).filter (· ∉ fieldNames.map codes) = fields.unknown :=
    List.filter_congr fun key _ => by rw [decide_not, List.contains_eq_mem]
  simp only [Layer.ofFields, hunknown]
  split
  · rename_i h
    rw [if_pos h]
  · rename_i h
    rw [if_neg h]

/-- **A layer is read from fields** that name settings, and has their values. -/
theorem Layer.ofFields_eq_ok_iff {fields : Fields} {l : Layer} :
    Layer.ofFields fields = .ok l ↔ fields.Known ∧ ∀ k, l.get k = Json.field? fields k.name := by
  rw [← Fields.unknown_eq_nil_iff, Setting.forall_iff, Layer.ofFields_eq]
  split
  · rename_i hnil
    rw [Except.ok.injEq, and_iff_right hnil, eq_comm, Layer.mk.injEq]
    rfl
  · rename_i hne
    exact iff_of_false (fun h => nomatch h) fun h => hne h.1

/-- **Fields that differ in one setting** are refused alike, or give layers that differ in it. -/
theorem Layer.ofFields_congr {fields fields' : Fields} {k : Setting}
    (h : fields.besides k = fields'.besides k) :
    (∃ c, Layer.ofFields fields = .error c ∧ Layer.ofFields fields' = .error c) ∨
      ∃ l l', Layer.ofFields fields = .ok l ∧ Layer.ofFields fields' = .ok l' ∧
        ∀ j, j ≠ k → l.get j = l'.get j := by
  have hunknown : fields.unknown = fields'.unknown := by
    rw [← fields.unknown_besides k, h, fields'.unknown_besides]
  by_cases hknown : fields.unknown = []
  · have hl := (ofFields_eq fields).trans (if_pos hknown)
    have hl' := (ofFields_eq fields').trans (if_pos (hunknown ▸ hknown))
    refine .inr ⟨_, _, hl, hl', fun j hj => ?_⟩
    have hfield := fields.field?_besides hj
    rw [h, fields'.field?_besides hj] at hfield
    cases j <;> exact hfield.symm
  · have hc := (ofFields_eq fields).trans (if_neg hknown)
    have hc' := (ofFields_eq fields').trans (if_neg (hunknown ▸ hknown))
    exact .inl ⟨_, hc, hunknown ▸ hc'⟩

/-! ## The environment -/

theorem filter_given {raw : String} (h : raw ≠ "") : (some raw).filter (· ≠ "") = some raw := by
  rw [Option.filter_eq_some_iff, decide_eq_true_iff]
  exact ⟨rfl, h⟩

namespace Setting

variable {raw : Option String} {v : Option Json}

theorem reads_maxVars_iff : Reads maxVars raw v ↔
    ∃ n, (raw.filter (· ≠ "")).mapM (readInt maxVarsVariable) = .ok n ∧ n.map .int = v := by
  have hread {name raw : String} {n : Int} :
      readInt name raw = .ok n ↔ Numeral.readInt? raw.toList = some n := by
    fun_cases readInt name raw <;> simp_all
  constructor
  · intro h
    cases h with
    | unset | emptyMaxVars => exact ⟨none, rfl, rfl⟩
    | maxVars hraw h =>
      rw [filter_given hraw]
      exact ⟨_, mapM_some_eq_ok_iff.2 ⟨_, hread.2 h, rfl⟩, rfl⟩
  · rintro ⟨n, hn, rfl⟩
    rcases raw with _ | raw
    · obtain rfl := Except.ok.inj hn
      exact .unset _
    · by_cases hraw : raw = ""
      · subst hraw
        obtain rfl := Except.ok.inj hn
        exact .emptyMaxVars
      · rw [filter_given hraw] at hn
        obtain ⟨m, hm, rfl⟩ := mapM_some_eq_ok_iff.1 hn
        exact .maxVars hraw (hread.1 hm)

theorem reads_onlyDiff_iff : Reads onlyDiff raw v ↔
    ∃ b, raw.mapM (readBool onlyDiffVariable) = .ok b ∧ b.map .bool = v := by
  constructor
  · intro h
    cases h with
    | unset => exact ⟨none, rfl, rfl⟩
    | onlyDiff h => exact ⟨_, mapM_some_eq_ok_iff.2 ⟨_, h, rfl⟩, rfl⟩
  · rintro ⟨b, hb, rfl⟩
    rcases raw with _ | raw
    · obtain rfl := Except.ok.inj hb
      exact .unset _
    · obtain ⟨b, h, rfl⟩ := mapM_some_eq_ok_iff.1 hb
      exact .onlyDiff h

theorem reads_markup_iff : Reads markup raw v ↔ v = (raw.filter (· ≠ "")).map fun raw =>
    Json.ofText (String.ofList (trim isBlank raw.toList)) := by
  constructor
  · intro h
    cases h with
    | unset | emptyMarkup => rfl
    | markup hraw =>
      rw [filter_given hraw]
      rfl
  · rintro rfl
    rcases raw with _ | raw
    · exact .unset _
    · by_cases hraw : raw = ""
      · subst hraw
        exact .emptyMarkup
      · rw [filter_given hraw]
        exact .markup hraw

end Setting

/-- **A layer is read from the environment** when each of its settings is read from its variable. -/
theorem Layer.ofEnvironment_eq_ok_iff {env : Environment} {l : Layer} :
    Layer.ofEnvironment env = .ok l ↔ ∀ k : Setting, k.Reads (env k.envName) (l.get k) := by
  simp only [Layer.ofEnvironment, bind_eq_ok_iff, Setting.forall_iff, Setting.reads_maxVars_iff,
    Setting.reads_onlyDiff_iff, Setting.reads_markup_iff]
  constructor
  · rintro ⟨n, hn, b, hb, h⟩
    obtain rfl := Except.ok.inj h
    exact ⟨⟨n, hn, rfl⟩, ⟨b, hb, rfl⟩, rfl⟩
  · rintro ⟨⟨n, hn, hmax⟩, ⟨b, hb, hdiff⟩, hmarkup⟩
    refine ⟨n, hn, b, hb, congrArg Except.ok ?_⟩
    rw [Layer.mk.injEq]
    exact ⟨hmax, hdiff, hmarkup.symm⟩

end TruthTable
