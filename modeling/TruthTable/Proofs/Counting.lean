import Mathlib.Data.Nat.Bitwise
import TruthTable.Proofs.RowNumbers

/-!
# Proofs/Counting — the assignments come in the order of counting

Distinct names make the enumeration of their assignments a count in binary: each assignment reads as
the number of its place, and a mask for each name takes the value of the name out of that number.
So every valuation of the names has one place, and the values increase from place to place as words
do in a dictionary, `false` before `true`.

* `masked` — the assignment that masks take out of a number.
* `existsUnique_place` — a valuation of the names has one place.
* `pairwise_values_all` — the order is lexicographic.
* `Enumerates` — the whole of it; `enumerates_all` says so of the enumeration.
-/

namespace TruthTable.Assignment

variable {names : List String}

/-! ## Masks -/

/-- **The assignment that masks take out of a number**: a single bit for each name, the most
significant of as many bits as there are names for the first. -/
def masked (names : List String) (i : Nat) : Assignment :=
  names.mapIdx fun place n => (n, i &&& 1 <<< (names.length - place - 1) != 0)

/-- A mask of one bit leaves something of a number exactly if the number has the bit. -/
theorem and_shiftLeft_ne_zero (i k : Nat) : (i &&& 1 <<< k != 0) = i.testBit k := by
  rw [Nat.one_shiftLeft, Nat.and_two_pow]
  cases i.testBit k <;> simp

/-- **Masks take out the bits of the names.** -/
theorem ofBits_eq_masked (h : names.Nodup) (i : Nat) : ofBits names names i = masked names i := by
  refine List.ext_getElem (by simp [ofBits, masked]) fun place h1 h2 => ?_
  simp only [ofBits, masked, List.getElem_map, List.getElem_mapIdx, bit, h.idxOf_getElem,
    and_shiftLeft_ne_zero, Nat.sub_right_comm]

/-- The assignment at a place reads as the place, and masks take it out of the place. -/
theorem index_eq_and_eq_masked (h : names.Nodup) {k : Nat} {a : Assignment}
    (ha : (all names)[k]? = some a) : a.index = k ∧ a = masked names k := by
  obtain ⟨hk, rfl⟩ := List.getElem?_eq_some_iff.1 ha
  have hindex := index_getElem_all names k hk
  have hnames := map_fst_of_mem_all (List.getElem_mem hk)
  have hbits := eq_ofBits (hnames ▸ h)
  rw [hnames, hindex, ofBits_eq_masked h] at hbits
  exact ⟨hindex, hbits⟩

/-! ## One place for each valuation -/

/-- An assignment to distinct names is known by the values it gives them. -/
theorem eq_map_of_value? (h : names.Nodup) {a : Assignment} (ha : a ∈ all names) {w : String → Bool}
    (hw : ∀ n ∈ names, a.value? n = some (w n)) : a = names.map fun n => (n, w n) := by
  have hnames := map_fst_of_mem_all ha
  have hbits := eq_ofBits (hnames ▸ h)
  rw [hnames] at hbits
  rw [hbits]
  refine List.map_congr_left fun n hn => ?_
  have hvalue := hw n hn
  rw [hbits, value?_ofBits hn] at hvalue
  rw [Option.some.inj hvalue]

/-- **Every valuation of the names has one place.** -/
theorem existsUnique_place (h : names.Nodup) (w : String → Bool) :
    ∃! k : Nat, ∃ a, (all names)[k]? = some a ∧ ∀ n ∈ names, value? a n = some (w n) := by
  obtain ⟨k, hk⟩ := List.getElem?_of_mem (map_mem_all w names)
  refine ⟨k, ⟨_, hk, fun n hn => value?_map w hn⟩, ?_⟩
  rintro l ⟨a, hl, hw⟩
  obtain rfl := eq_map_of_value? h (List.mem_of_getElem? hl) hw
  exact (index_eq_and_eq_masked h hl).1.symm.trans (index_eq_and_eq_masked h hk).1

/-! ## The order -/

/-- The values, in the order of the names. -/
def values (a : Assignment) : List Bool := a.map Prod.snd

/-- **The values increase lexicographically.** -/
theorem pairwise_values_all : ∀ names : List String,
    (all names).Pairwise fun a b => List.Lex (· < ·) (values a) (values b)
  | [] => List.pairwise_singleton _ _
  | x :: xs => by
    have half (b : Bool) : ((all xs).map ((x, b) :: ·)).Pairwise fun a b =>
        List.Lex (· < ·) (values a) (values b) :=
      List.pairwise_map.2 ((pairwise_values_all xs).imp fun h => .cons h)
    refine List.pairwise_append.2 ⟨half false, half true, fun a ha b hb => ?_⟩
    obtain ⟨a', -, rfl⟩ := List.mem_map.1 ha
    obtain ⟨b', -, rfl⟩ := List.mem_map.1 hb
    exact .rel (Bool.false_lt_true)

/-! ## The enumeration -/

/-- **The assignments to some names in the order of counting.** -/
structure Enumerates (names : List String) (assignments : List Assignment) : Prop where
  length_eq : assignments.length = 2 ^ names.length
  /-- Each gives a value to the names and to nothing else. -/
  names_eq : ∀ a ∈ assignments, a.map Prod.fst = names ∧ ∀ n, (a.value? n).isSome ↔ n ∈ names
  /-- Each reads as the number of its place, and masks take it out of that number. -/
  place_eq (k : Nat) (a : Assignment) : assignments[k]? = some a → a.index = k ∧ a = masked names k
  /-- Every valuation of the names is there once. -/
  existsUnique (w : String → Bool) :
    ∃! k : Nat, ∃ a, assignments[k]? = some a ∧ ∀ n ∈ names, value? a n = some (w n)
  increasing : assignments.Pairwise fun a b => List.Lex (· < ·) (values a) (values b)
  /-- The first name is false in the first half and true in the second, and both halves enumerate
  the assignments to the other names. -/
  halves (x : String) (xs : List String) : names = x :: xs →
    assignments.take (2 ^ xs.length) = (all xs).map ((x, false) :: ·) ∧
      assignments.drop (2 ^ xs.length) = (all xs).map ((x, true) :: ·)

/-- **The assignments to distinct names come in the order of counting.** -/
theorem enumerates_all (h : names.Nodup) : Enumerates names (all names) where
  length_eq := by rw [length_all, Nat.pow_eq]
  names_eq a ha := by
    have hnames := map_fst_of_mem_all ha
    exact ⟨hnames, fun n => hnames ▸ isSome_value?_iff⟩
  place_eq _ _ := index_eq_and_eq_masked h
  existsUnique := existsUnique_place h
  increasing := pairwise_values_all names
  halves := by
    rintro x xs rfl
    have hlength : ((all xs).map ((x, false) :: ·)).length = 2 ^ xs.length := by
      rw [List.length_map, length_all, Nat.pow_eq]
    exact ⟨List.take_left' hlength, List.drop_left' hlength⟩

/-- Two names, whose order is not that of the alphabet. -/
theorem enumerates_all_two : ["B", "A"].Nodup ∧
    Enumerates ["B", "A"] [[("B", false), ("A", false)], [("B", false), ("A", true)],
      [("B", true), ("A", false)], [("B", true), ("A", true)]] := by
  have h : ["B", "A"].Nodup := by decide
  exact ⟨h, enumerates_all h⟩

end TruthTable.Assignment
