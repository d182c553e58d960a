import Mathlib.Algebra.Group.Nat.Defs
import TruthTable.Assignment

/-!
# Proofs/Enumeration — a truth table lists every valuation once, in the order of its number

Reading the values of an assignment as a binary number, the first most significant, turns the
enumeration into counting: the numbers below `2 ^ n`, in order.  Every valuation of the names is
among the enumerated ones.

* `map_index_all` — the enumeration counts.
* `map_mem_all`, `value?_map` — the assignment that a valuation makes to the names is enumerated,
  and gives each name the valuation's value.
-/

namespace TruthTable.Assignment

/-! ## Counting -/

theorem foldl_index : ∀ (a : Assignment) (n : Nat),
    a.foldl (fun n p => 2 * n + p.2.toNat) n = n * 2 ^ a.length + index a
  | [], n => by simp [index]
  | p :: a, n => by
    rw [index, List.foldl_cons, List.foldl_cons, foldl_index a, foldl_index a (2 * 0 + p.2.toNat),
      List.length_cons, Nat.pow_succ]
    simp only [Nat.mul_zero, Nat.zero_add, Nat.add_mul]
    rw [Nat.mul_comm 2 n, Nat.mul_assoc, Nat.mul_comm 2 (2 ^ a.length), Nat.add_assoc]

/-- **The first value is the most significant bit.** -/
theorem index_cons (x : String) (b : Bool) (a : Assignment) :
    index ((x, b) :: a) = b.toNat * 2 ^ a.length + index a := by
  rw [index, List.foldl_cons, foldl_index]
  simp

theorem length_of_mem_all {xs : List String} {a : Assignment} (h : a ∈ all xs) :
    a.length = xs.length := by
  rw [← map_fst_of_mem_all h, List.length_map]

/-- **The enumeration counts**: its assignments read as the numbers below `2 ^ n`, in order. -/
theorem map_index_all : ∀ xs : List String, (all xs).map index = List.range (2 ^ xs.length)
  | [] => rfl
  | x :: xs => by
    have hhalf (b : Bool) : (all xs).map (index ∘ ((x, b) :: ·)) =
        (List.range (2 ^ xs.length)).map (b.toNat * 2 ^ xs.length + ·) := by
      rw [← map_index_all xs, List.map_map]
      refine List.map_congr_left fun a ha => ?_
      rw [Function.comp_apply, index_cons, length_of_mem_all ha]
      rfl
    rw [all, List.map_append, List.map_map, List.map_map, hhalf, hhalf, List.length_cons,
      Nat.pow_succ, Nat.mul_two, List.range_add]
    simp

/-- **An enumerated assignment reads as its place.** -/
theorem index_getElem_all (xs : List String) (k : Nat) (h : k < (all xs).length) :
    (all xs)[k].index = k := by
  have hk : k < ((all xs).map index).length := by rwa [List.length_map]
  have : ((all xs).map index)[k] = k := by simp only [map_index_all, List.getElem_range]
  rwa [List.getElem_map] at this

/-! ## Every valuation -/

/-- **What a valuation makes of the names is enumerated.** -/
theorem map_mem_all (w : String → Bool) : ∀ xs : List String,
    xs.map (fun n => (n, w n)) ∈ all xs
  | [] => by simp [all]
  | x :: xs => by
    have ih := map_mem_all w xs
    rw [List.map_cons, all, List.mem_append, List.mem_map, List.mem_map]
    cases hx : w x with
    | false => exact .inl ⟨_, ih, rfl⟩
    | true => exact .inr ⟨_, ih, rfl⟩

/-- The names have the values that the valuation gives them. -/
theorem value?_map (w : String → Bool) {n : String} : ∀ {xs : List String}, n ∈ xs →
    value? (xs.map fun n => (n, w n)) n = some (w n)
  | x :: xs, h => by
    rw [List.map_cons, value?]
    by_cases hxs : n ∈ xs
    · rw [value?_map w hxs]
      rfl
    · obtain rfl : n = x := (List.mem_cons.1 h).resolve_right hxs
      have hnone : value? (xs.map fun m => (m, w m)) n = none := by
        refine Option.not_isSome_iff_eq_none.1 fun hsome => hxs ?_
        simpa using isSome_value?_iff.1 hsome
      simp [hnone]

/-- An enumerated assignment has a value for each of its names. -/
theorem isSome_value?_of_mem_all {xs : List String} {a : Assignment} (ha : a ∈ all xs) {n : String}
    (hn : n ∈ xs) : (a.value? n).isSome := by
  rw [isSome_value?_iff, map_fst_of_mem_all ha]
  exact hn

end TruthTable.Assignment
