import Mathlib.Data.List.Sort
import TruthTable.Proofs.Formula

/-!
# Proofs/NaturalOrder — names stand in one order, whatever order they come in

The key of a name is a text and a number in turn, so two keys are compared text against text and
number against number, and the name at the end settles what the parts leave open.  Names are thereby
totally ordered, and a set of names has one list.  Behind the same text the number decides, as a
number.

* `compareKeys?` — keys compared by a comparison that has no answer for a text against a number;
  `compareKeys?_key` says that it always has one.
* `Precedes` — the order of names, a strict total order.
* `sort_congr`, `sort_sublist_sort` — the list of some names is settled by which names there are.
* `HasRun` — a digit run of a name; `precedes_iff_of_hasRun` says that numbers decide.
* `precedes_and_sort` — all of it, also for the variables of several formulas.
-/

namespace TruthTable.VarName

open Text

/-! ## Keys -/

/-- The part is a text. -/
def Part.isText : Part → Bool
  | text .. => true
  | number _ => false

/-- The parts of the pieces of a name. -/
def Runs.parts (r : Runs) : List Part :=
  .ofText r.head :: r.tail.flatMap fun p => [.ofDigits p.1, .ofText p.2]

/-- **Texts and numbers take turns**, from a text on. -/
theorem isText_of_getElem? : ∀ {tail : List (List Char × List Char)} {head : List Char} {i : Nat}
    {p : Part}, (Runs.parts ⟨head, tail⟩)[i]? = some p → p.isText = (i % 2 == 0)
  | _, _, 0, _, h => by
    obtain rfl := Option.some.inj h
    rfl
  | [], _, _ + 1, _, h => nomatch h
  | _ :: _, _, 1, _, h => by
    obtain rfl := Option.some.inj h
    rfl
  | (_, text) :: tail, _, i + 2, p, h => by
    have hrest : (Runs.parts ⟨text, tail⟩)[i]? = some p := h
    rw [isText_of_getElem? hrest, Nat.add_mod_right]

/-- **Comparison of parts of one kind**: a text and a number are not compared. -/
def Part.compare? : Part → Part → Option Ordering
  | text f s, text g t => some (compareText (f, s) (g, t))
  | number m, number n => some (Ord.compare m n)
  | _, _ => none

/-- **Comparison of parts in turn**: the first two that differ decide, if they can be compared. -/
def compareParts? : List Part → List Part → Option Ordering
  | [], [] => some .eq
  | [], _ :: _ => some .lt
  | _ :: _, [] => some .gt
  | p :: ps, q :: qs => do
    match ← p.compare? q with
    | .eq => compareParts? ps qs
    | o => return o

/-- **Comparison of keys**: the parts first, then the names. -/
def compareKeys? (j k : Key) : Option Ordering :=
  (compareParts? j.parts k.parts).map (·.then (compare j.name k.name))

theorem Part.compare?_eq {p q : Part} (h : p.isText = q.isText) :
    p.compare? q = some (Ord.compare p q) := by
  cases p <;> cases q <;> first | rfl | nomatch h

/-- Parts of one kind in each place are compared. -/
theorem compareParts?_eq : ∀ {ps qs : List Part},
    (∀ (i : Nat) (p q : Part), ps[i]? = some p → qs[i]? = some q → p.isText = q.isText) →
      compareParts? ps qs = some (compare ps qs)
  | [], [], _ | [], _ :: _, _ | _ :: _, [], _ => rfl
  | p :: ps, q :: qs, h => by
    have hkind : p.isText = q.isText := h 0 p q rfl rfl
    have ih : compareParts? ps qs = some (compare ps qs) := compareParts?_eq fun i => h (i + 1)
    have hcons : compare (p :: ps) (q :: qs) = (compare p q).then (compare ps qs) :=
      List.compareLex_cons_cons
    rw [compareParts?, Part.compare?_eq hkind, hcons, Option.bind_eq_bind, Option.bind_some]
    cases compare p q with
    | eq => exact ih
    | lt | gt => rfl

/-- **Keys are compared without a text against a number.** -/
theorem compareKeys?_key (m n : String) :
    compareKeys? (key m) (key n) = some (compare (key m) (key n)) := by
  have hparts : compareParts? (parts m) (parts n) = some (compare (parts m) (parts n)) :=
    compareParts?_eq fun i p q hp hq => (isText_of_getElem? hp).trans (isText_of_getElem? hq).symm
  rw [compareKeys?, key, key, hparts]
  rfl

/-! ## The order of names -/

/-- **The name comes before** the other in natural order. -/
def Precedes (m n : String) : Prop := compare (key m) (key n) = .lt

/-- **Natural order is a strict total order.** -/
instance strictTotalOrder_precedes : IsStrictTotalOrder String Precedes where
  trichotomous m n hmn hnm := by
    cases h : compare (key m) (key n) with
    | lt => exact absurd h hmn
    | eq => exact key_injective (Std.LawfulEqOrd.eq_of_compare h)
    | gt => exact absurd (Std.OrientedCmp.lt_of_gt h) hnm
  irrefl n h := nomatch Std.compare_self.symm.trans h
  trans _ _ _ := Std.TransCmp.lt_trans

/-- Sorted names are distinct. -/
theorem nodup_sort (names : List String) : (sort names).Nodup :=
  (strict_sort names).imp fun {m n} (hlt : Precedes m n) => ne_of_irrefl hlt

/-- **Names in natural order** are settled by which names there are. -/
theorem sort_congr {ms ns : List String} (h : ∀ n, n ∈ ms ↔ n ∈ ns) : sort ms = sort ns := by
  have hm : (sort ms).Pairwise Precedes := strict_sort ms
  exact hm.eq_of_mem_iff (strict_sort ns) fun n => by rw [mem_sort, mem_sort, h]

/-- **Fewer names are a part of the list**, in its order. -/
theorem sort_sublist_sort {ms ns : List String} (h : ∀ n ∈ ms, n ∈ ns) :
    (sort ms).Sublist (sort ns) := by
  have hsub : (sort ms).Subperm (sort ns) := List.subperm_of_subset (nodup_sort ms) fun n hn =>
    mem_sort.2 (h n (mem_sort.1 hn))
  have hm : (sort ms).Pairwise Precedes := strict_sort ms
  exact List.sublist_of_subperm_of_pairwise hsub hm (strict_sort ns)

/-! ## Digit runs -/

/-- **A name with a digit run** between two texts; the run goes as far as the digits do. -/
structure HasRun (name : String) (before run after : List Char) : Prop where
  toList_eq : name.toList = before ++ (run ++ after)
  ne_nil : run ≠ []
  isDigit : ∀ c ∈ run, isDigit c = true
  before_end : ∀ c ∈ before.getLast?, Text.isDigit c = false
  after_start : ∀ c ∈ after.head?, Text.isDigit c = false

/-- A run of digits in front is the first of the runs. -/
theorem runs_append_of_digits {after : List Char} (hafter : ∀ c ∈ after.head?, isDigit c = false) :
    ∀ {run : List Char}, run ≠ [] → (∀ c ∈ run, isDigit c = true) →
      runs (run ++ after) = ⟨[], (run, (runs after).head) :: (runs after).tail⟩
  | [c], _, hrun => by
    have hc : isDigit c = true := hrun c List.mem_cons_self
    rw [List.singleton_append, runs_cons, Runs.cons, if_pos hc]
    cases after with
    | nil => rfl
    | cons a after =>
      have ha : isDigit a = false := hafter a rfl
      rw [runs_cons, Runs.cons, if_neg (ha ▸ Bool.false_ne_true)]
  | c :: d :: run, _, hrun => by
    obtain ⟨hc, hrest⟩ := List.forall_mem_cons.1 hrun
    have ih := runs_append_of_digits hafter (List.cons_ne_nil d run) hrest
    rw [List.cons_append, runs_cons, ih, Runs.cons, if_pos hc]

/-- A text that ends in no digit keeps its runs in front of a run. -/
theorem runs_append_of_end {cs : List Char} (hcs : (runs cs).head = []) :
    ∀ {before : List Char}, (∀ c ∈ before.getLast?, isDigit c = false) →
      runs (before ++ cs) = ⟨(runs before).head, (runs before).tail ++ (runs cs).tail⟩
  | [], _ => congrArg (Runs.mk · (runs cs).tail) hcs
  | c :: before, hend => by
    have hbefore : ∀ d ∈ before.getLast?, isDigit d = false := fun d hd =>
      hend d (by rw [List.getLast?_cons, hd]; rfl)
    rw [List.cons_append, runs_cons, runs_cons, runs_append_of_end hcs hbefore, Runs.cons,
      Runs.cons]
    split
    · rename_i hc
      -- a digit at the end of the text would run on
      have hne : before ≠ [] := by
        rintro rfl
        exact Bool.false_ne_true ((hend c rfl).symm.trans hc)
      have hjoin : (runs before).join ≠ [] := by rwa [join_runs]
      generalize runs before = r at hjoin ⊢
      rcases r with ⟨_ | ⟨d, head⟩, _ | ⟨p, tail⟩⟩
      · exact absurd rfl hjoin
      all_goals rfl
    · rfl

/-- **The number of a digit run** stands between the parts of the two texts. -/
theorem HasRun.parts_eq {name : String} {before run after : List Char}
    (h : HasRun name before run after) :
    parts name = (runs before).parts ++ .ofDigits run :: (runs after).parts := by
  have hrun := runs_append_of_digits h.after_start h.ne_nil h.isDigit
  have hruns := runs_append_of_end (congrArg Runs.head hrun) h.before_end
  have hname : parts name = (runs name.toList).parts := rfl
  rw [hname, h.toList_eq, hruns, hrun]
  simp [Runs.parts]

/-- Behind the same parts the others decide. -/
theorem compare_append (ps : List Part) (qs rs : List Part) :
    compare (ps ++ qs) (ps ++ rs) = compare qs rs := by
  induction ps with
  | nil => rfl
  | cons p ps ih =>
    have hcons : compare (p :: (ps ++ qs)) (p :: (ps ++ rs)) =
        (compare p p).then (compare (ps ++ qs) (ps ++ rs)) := List.compareLex_cons_cons
    rw [List.cons_append, List.cons_append, hcons, Std.compare_self, ih]
    rfl

/-- The number of a run of digits. -/
def runValue (run : List Char) : Nat := Numeral.value (run.map digitValue)

/-- **Numbers decide behind the same text**, whatever the zeros in front of them or their length. -/
theorem precedes_iff_of_hasRun {m n : String} {before run1 run2 after1 after2 : List Char}
    (hm : HasRun m before run1 after1) (hn : HasRun n before run2 after2)
    (hne : runValue run1 ≠ runValue run2) : Precedes m n ↔ runValue run1 < runValue run2 := by
  have hkeys : compare (key m) (key n) =
      (compare (parts m) (parts n)).then (compare m n) := rfl
  have hparts : compare (parts m) (parts n) =
      (compare (runValue run1) (runValue run2)).then
        (compare (runs after1).parts (runs after2).parts) := by
    rw [hm.parts_eq, hn.parts_eq, compare_append]
    exact List.compareLex_cons_cons
  rw [Precedes, hkeys, hparts, ← Nat.compare_eq_lt]
  rcases Nat.lt_or_gt_of_ne hne with hlt | hgt
  · rw [Nat.compare_eq_lt.2 hlt]
    exact iff_of_true rfl rfl
  · rw [Nat.compare_eq_gt.2 hgt]
    exact iff_of_false (fun h => nomatch h) fun h => nomatch h

/-! ## Sorting -/

/-- **Names are put in one order.**  Keys are compared without a text against a number and tell
their names apart, and the order is strict and total.  So names within the digit limit have one
list, which increases strictly and is settled by which names there are.  The variables of formulas
are such a list, whatever the order of the formulas, and those of each formula are a part of it.
Behind the same text numbers decide. -/
theorem precedes_and_sort :
    (∀ m n, compareKeys? (key m) (key n) = some (compare (key m) (key n))) ∧
    Function.Injective key ∧ IsStrictTotalOrder String Precedes ∧
    (∀ names, (∀ n ∈ names, WithinLimit n) →
      ∃ sorted, sortChecked names = .ok sorted ∧ (∀ n, n ∈ sorted ↔ n ∈ names) ∧
        sorted.Pairwise Precedes ∧
        ∀ names', (∀ n, n ∈ names' ↔ n ∈ names) → sortChecked names' = .ok sorted) ∧
    (∀ fs, (∀ f ∈ fs, ∃ text, Formula.compile text = .ok f) →
      sortChecked (fs.flatMap Formula.names) = .ok (Formula.union fs) ∧
      (∀ gs, (∀ f, f ∈ gs ↔ f ∈ fs) → Formula.union gs = Formula.union fs) ∧
      ∀ f ∈ fs, f.names.Sublist (Formula.union fs)) ∧
    ∀ m n before run1 run2 after1 after2, HasRun m before run1 after1 →
      HasRun n before run2 after2 → runValue run1 ≠ runValue run2 →
        (Precedes m n ↔ runValue run1 < runValue run2) := by
  refine ⟨compareKeys?_key, fun _ _ => key_injective, strictTotalOrder_precedes,
    fun names hnames => ?_, fun fs hfs => ?_, fun _ _ _ _ _ _ _ => precedes_iff_of_hasRun⟩
  · refine ⟨sort names, sortChecked_eq_ok_iff.2 ⟨hnames, rfl⟩, fun _ => mem_sort,
      strict_sort names, fun names' h => sortChecked_eq_ok_iff.2 ⟨fun n hn => ?_, sort_congr h⟩⟩
    exact hnames n ((h n).1 hn)
  · have hcompiled (f : Formula) (hf : f ∈ fs) : ∃ text, f.CompiledFrom text :=
      (hfs f hf).imp fun _ => Formula.compile_eq_ok_iff.1
    refine ⟨sortChecked_eq_ok_iff.2 ⟨fun n hn => ?_, rfl⟩, fun gs h => sort_congr fun n => ?_,
      fun f hf => ?_⟩
    · obtain ⟨f, hf, hn⟩ := List.mem_flatMap.1 hn
      obtain ⟨text, hf⟩ := hcompiled f hf
      exact hf.withinLimit n (hf.mem_names_iff.1 hn)
    · simp only [List.mem_flatMap, h]
    · obtain ⟨text, htext⟩ := hcompiled f hf
      rw [htext.names_eq]
      exact sort_sublist_sort fun n hn =>
        List.mem_flatMap.2 ⟨f, hf, htext.mem_names_iff.2 hn⟩

/-- Names twice and with zeros in front, and two formulas with variables of their own. -/
theorem precedes_and_sort_zeros : ∃ f g, Formula.compile "A10+B" = .ok f ∧
    Formula.compile "A007" = .ok g ∧
    sortChecked ["A10", "A007", "A10", "A7"] = .ok ["A007", "A7", "A10"] ∧
    sortChecked ["A7", "A10", "A007"] = .ok ["A007", "A7", "A10"] ∧
    Formula.union [g, f, g] = Formula.union [f, g] ∧
    f.names.Sublist (Formula.union [f, g]) ∧ Precedes "A007" "A10" := by
  let f : Formula :=
    { text := "A10+B"
      tokens := [.var "A10", .plain (.conn .or), .var "B"]
      sequence := [.var "A10", .var "B", .plain (.conn .or)]
      names := ["A10", "B"]
      tree := .bin .or (.var "A10") (.var "B") }
  let g : Formula :=
    { text := "A007", tokens := [.var "A007"], sequence := [.var "A007"], names := ["A007"]
      tree := .var "A007" }
  have hf : Formula.compile "A10+B" = .ok f := by decide +kernel
  have hg : Formula.compile "A007" = .ok g := by decide +kernel
  have hsorted : sortChecked ["A10", "A007", "A10", "A7"] = .ok ["A007", "A7", "A10"] := by
    decide +kernel
  obtain ⟨-, -, -, hsort, hunion, hnumbers⟩ := precedes_and_sort
  obtain ⟨sorted, h, -, -, hsame⟩ :=
    hsort ["A10", "A007", "A10", "A7"] (sortChecked_eq_ok_iff.1 hsorted).1
  obtain rfl := Except.ok.inj (h.symm.trans hsorted)
  obtain ⟨-, hsets, hsub⟩ := hunion [f, g] (by
    simp only [List.forall_mem_cons, List.not_mem_nil, false_implies, implies_true, and_true]
    exact ⟨⟨_, hf⟩, _, hg⟩)
  have hrun {name : String} {run : List Char} (hname : name.toList = 'A' :: (run ++ []))
      (hne : run ≠ []) (hdigits : run.all isDigit = true) : HasRun name ['A'] run [] :=
    { toList_eq := hname
      ne_nil := hne
      isDigit := List.all_eq_true.1 hdigits
      before_end := by
        rintro c ⟨⟩
        rfl
      after_start := fun _ h => nomatch h }
  have hzeros : HasRun "A007" ['A'] ['0', '0', '7'] [] := hrun rfl (by decide) (by decide)
  have hten : HasRun "A10" ['A'] ['1', '0'] [] := hrun rfl (by decide) (by decide)
  refine ⟨f, g, hf, hg, hsorted, hsame _ fun n => ?_, hsets _ fun h => ?_,
    hsub f List.mem_cons_self, ?_⟩
  · simp only [List.mem_cons, List.not_mem_nil, or_false]
    tauto
  · simp only [List.mem_cons, List.not_mem_nil, or_false]
    tauto
  · exact (hnumbers _ _ _ _ _ _ _ hzeros hten (by decide)).2 (by decide)

end TruthTable.VarName
