import TruthTable.Increasing
import TruthTable.Numeral
import TruthTable.Text.CaseFolding

/-!
# VarName — the natural order of variable names

Names are ordered the way a reader expects: `A2` before `A10`, `a` next to `A`.  A name is cut into
its runs of digits and the texts around them; texts compare without regard to case first and with
regard to it second, digit runs compare as numbers, and the name itself breaks the ties that remain,
such as `A1` against `A01`.

* `VarName.runs` — the name cut at its digit runs.
* `VarName.Key` — what two names are compared by.
* `VarName.sort` — distinct names in natural order; `mem_sort` and `strict_sort` say so.
* `VarName.checked` — refuses a name with a digit run past the digit limit.
-/

namespace TruthTable.VarName

open Text

/-! ## Runs of digits -/

/-- A name **cut at its digit runs**: the text before the first, then each run with the text after
it. -/
structure Runs where
  head : List Char
  tail : List (List Char × List Char)
  deriving DecidableEq, Repr

/-- One character more in front. -/
def Runs.cons (c : Char) (r : Runs) : Runs :=
  if isDigit c then
    match r.head, r.tail with
    | [], (digits, text) :: tail => ⟨[], (c :: digits, text) :: tail⟩
    | text, tail => ⟨[], ([c], text) :: tail⟩
  else ⟨c :: r.head, r.tail⟩

/-- **The name cut at its digit runs.** -/
def runs (cs : List Char) : Runs := cs.foldr Runs.cons ⟨[], []⟩

/-- The characters of the pieces, in order. -/
def Runs.join (r : Runs) : List Char := r.head ++ r.tail.flatMap fun p => p.1 ++ p.2

theorem join_cons (c : Char) (r : Runs) : (r.cons c).join = c :: r.join := by
  obtain ⟨head, tail⟩ := r
  unfold Runs.cons
  split
  · split <;> simp_all [Runs.join]
  · rfl

/-- **Nothing is lost by the cut.** -/
theorem join_runs : ∀ cs : List Char, (runs cs).join = cs
  | [] => rfl
  | c :: cs => by
    have ih := join_runs cs
    rw [runs] at ih
    rw [runs, List.foldr_cons, join_cons, ih]

/-! ## Keys -/

/-- One **part of a key**: a text with its folded form, or the number of a digit run. -/
inductive Part where
  | text (folded written : List Char)
  | number (n : Nat)
  deriving DecidableEq, Repr

namespace Part

/-- The part of a text. -/
def ofText (cs : List Char) : Part := text (foldCase cs) cs

/-- The part of a digit run. -/
def ofDigits (cs : List Char) : Part := number (Numeral.value (cs.map digitValue))

/-- Texts with their folded forms: by these first, then by their characters. -/
def compareText : List Char × List Char → List Char × List Char → Ordering :=
  compareLex (compareOn Prod.fst) (compareOn Prod.snd)

instance : Std.TransCmp compareText :=
  inferInstanceAs (Std.TransCmp (compareLex (compareOn Prod.fst) (compareOn Prod.snd)))

/-- Texts as texts, numbers by size.  Keys never hold a text against a number, so which of the two
comes first is of no account. -/
def compare : Part → Part → Ordering
  | text f s, text g t => compareText (f, s) (g, t)
  | number m, number n => Ord.compare m n
  | text .., number _ => .lt
  | number _, text .. => .gt

instance : Ord Part := ⟨compare⟩

theorem compare_eq_eq_iff {p q : Part} : p.compare q = .eq ↔ p = q := by
  cases p <;> cases q <;> simp [compare, compareText, compareLex, compareOn]

instance : Std.LawfulEqOrd Part where
  compare_self := compare_eq_eq_iff.2 rfl
  eq_of_compare := compare_eq_eq_iff.1

theorem compare_swap : ∀ p q : Part, p.compare q = (q.compare p).swap
  | text f s, text g t => (Std.OrientedCmp.eq_swap : compareText (f, s) (g, t) = _)
  | number m, number n => (Std.OrientedOrd.eq_swap : Ord.compare m n = _)
  | text .., number _ | number _, text .. => rfl

theorem isLE_compare_trans : ∀ {p q r : Part}, (p.compare q).isLE → (q.compare r).isLE →
    (p.compare r).isLE
  | text f s, text _ _, text h u, hpq, hqr =>
    (Std.TransCmp.isLE_trans hpq hqr : (compareText (f, s) (h, u)).isLE)
  | number m, number _, number k, hpq, hqr =>
    (Std.TransCmp.isLE_trans hpq hqr : (Ord.compare m k).isLE)
  | text .., _, number _, _, _ => rfl
  | number _, text .., _, hpq, _ => nomatch hpq
  | _, number _, text .., _, hqr => nomatch hqr

instance : Std.TransOrd Part where
  eq_swap := compare_swap _ _
  isLE_trans := isLE_compare_trans

end Part

/-- The parts of a name: texts and numbers in turn, a text first and last. -/
def parts (name : String) : List Part :=
  let r := runs name.toList
  .ofText r.head :: r.tail.flatMap fun p => [.ofDigits p.1, .ofText p.2]

/-- **What a name is ordered by**: its parts, then the name itself. -/
structure Key where
  parts : List Part
  name : String
  deriving DecidableEq, Repr

/-- The key of a name. -/
def key (name : String) : Key := ⟨parts name, name⟩

/-- Keys compare by their parts first. -/
def Key.compare : Key → Key → Ordering := compareLex (compareOn parts) (compareOn name)

instance : Ord Key := ⟨Key.compare⟩

instance : Std.TransOrd Key :=
  inferInstanceAs (Std.TransCmp (compareLex (compareOn Key.parts) (compareOn Key.name)))

theorem Key.compare_eq_eq_iff {j k : Key} : j.compare k = .eq ↔ j = k := by
  cases j
  cases k
  simp [compare, compareLex, compareOn]

instance : Std.LawfulEqOrd Key where
  compare_self := Key.compare_eq_eq_iff.2 rfl
  eq_of_compare := Key.compare_eq_eq_iff.1

theorem key_injective {m n : String} (h : key m = key n) : m = n := congrArg Key.name h

/-! ## Sorting -/

/-- **Distinct names in natural order.** -/
def sort (names : List String) : List String :=
  (Increasing.ofList (names.map key)).map Key.name

/-- **Sorting keeps the names.** -/
@[simp] theorem mem_sort {n : String} {names : List String} : n ∈ sort names ↔ n ∈ names := by
  simp only [sort, List.mem_map, Increasing.mem_ofList]
  constructor
  · rintro ⟨_, ⟨m, hm, rfl⟩, rfl⟩
    exact hm
  · exact fun hn => ⟨key n, ⟨n, hn, rfl⟩, rfl⟩

/-- **The sorted names increase strictly** in the order of their keys. -/
theorem strict_sort (names : List String) :
    (sort names).Pairwise fun m n => compare (key m) (key n) = .lt := by
  refine List.pairwise_map.2
    (List.Pairwise.imp_of_mem (fun hj hk h => ?_) (Increasing.strict_ofList (names.map key)))
  obtain ⟨m, _, rfl⟩ := List.mem_map.1 (Increasing.mem_ofList.1 hj)
  obtain ⟨n, _, rfl⟩ := List.mem_map.1 (Increasing.mem_ofList.1 hk)
  exact h

/-! ## The digit limit -/

/-- **Refuses a name with a digit run past the digit limit**, the first such run. -/
def checked (name : String) : Except Numeral.LimitError Unit :=
  (runs name.toList).tail.forM fun p => do
    let _ ← Numeral.readNat (p.1.map digitValue)

/-- Distinct names in natural order, if every digit run is within the limit. -/
def sortChecked (names : List String) : Except Numeral.LimitError (List String) := do
  names.forM checked
  return sort names

end TruthTable.VarName
