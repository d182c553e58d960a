import TruthTable.Expr

/-!
# Assignment — all truth assignments to a list of variables

An assignment lists variables with their values.  `Assignment.all` enumerates the assignments to a
list of names the way a truth table does: the first name changes slowest, and `false` comes first.

* `Assignment.value?` — the value of a variable.
* `Assignment.all` — the enumeration.
* `Assignment.index` — the row number that an assignment stands at.
-/

namespace TruthTable

/-- Variables **with their values**, in the order of the table's columns. -/
abbrev Assignment := List (String × Bool)

namespace Assignment

/-- **The value of a variable**; of two entries for one name the later counts. -/
def value? : Assignment → Valuation
  | [], _ => none
  | (x, b) :: a, n => (value? a n).or (if x = n then some b else none)

/-- **Every assignment to the names**, the first name most significant. -/
def all : List String → List Assignment
  | [] => [[]]
  | x :: xs => (all xs).map ((x, false) :: ·) ++ (all xs).map ((x, true) :: ·)

/-- The values read as a binary number, the first most significant. -/
def index (a : Assignment) : Nat := a.foldl (fun n p => 2 * n + p.2.toNat) 0

@[simp] theorem length_all : ∀ xs : List String, (all xs).length = Nat.pow 2 xs.length
  | [] => rfl
  | x :: xs => by
    rw [all, List.length_append, List.length_map, List.length_map, length_all xs]
    exact (Nat.mul_two _).symm

/-- An enumerated assignment lists the names in their order. -/
theorem map_fst_of_mem_all : ∀ {xs : List String} {a : Assignment}, a ∈ all xs →
    a.map Prod.fst = xs
  | [], a, h => by simp_all [all]
  | x :: xs, a, h => by
    simp only [all, List.mem_append, List.mem_map] at h
    rcases h with ⟨b, hb, rfl⟩ | ⟨b, hb, rfl⟩ <;> simp [map_fst_of_mem_all hb]

/-- A variable has a value exactly when it is listed. -/
theorem isSome_value?_iff : ∀ {a : Assignment} {n : String},
    (a.value? n).isSome ↔ n ∈ a.map Prod.fst
  | [], n => by simp [value?]
  | (x, b) :: a, n => by
    rw [value?, Option.isSome_or, Bool.or_eq_true, isSome_value?_iff (a := a), List.map_cons,
      List.mem_cons, or_comm]
    by_cases h : x = n
    · simp [h]
    · simp [h, Ne.symm h]

end Assignment

end TruthTable
