/-!
# Increasing — sets listed in strictly increasing order

A set of values is listed in strictly increasing order, so that a set has one list, whatever order
or repetition its members came in.

* `Increasing.union` — the list of the members of two sets.
* `Increasing.ofList` — the list of the set of some values.
* `mem_ofList` — the members are those values.
* `strict_ofList` — the order is strict.
-/

namespace TruthTable.Increasing

variable {α : Type} [Ord α]

/-! ## Two sets -/

/-- The union of a set whose least member is `x` and another one, where `rest` is the union of what
is above `x` and a set. -/
def unionHead (x : α) (rest : List α → List α) : List α → List α
  | [] => x :: rest []
  | y :: ys => match compare x y with
    | .lt => x :: rest (y :: ys)
    | .eq => x :: rest ys
    | .gt => y :: unionHead x rest ys

/-- **The union of two sets.** -/
def union : List α → List α → List α
  | [], ys => ys
  | x :: xs, ys => unionHead x (union xs) ys

theorem mem_unionHead [Std.LawfulEqOrd α] {x z : α} {rest : List α → List α} (zs : List α)
    (h : ∀ ys, z ∈ rest ys ↔ z ∈ zs ∨ z ∈ ys) : ∀ ys : List α,
    z ∈ unionHead x rest ys ↔ (z = x ∨ z ∈ zs) ∨ z ∈ ys
  | [] => by simp [unionHead, h]
  | y :: ys => by
    unfold unionHead
    split
    · simp only [List.mem_cons, h, or_assoc]
    · rename_i hxy
      obtain rfl := Std.LawfulEqOrd.eq_of_compare hxy
      simp only [List.mem_cons, h]
      grind
    · simp only [List.mem_cons, mem_unionHead zs h ys]
      grind

/-- **The members of a union.** -/
theorem mem_union [Std.LawfulEqOrd α] {z : α} : ∀ xs ys : List α,
    z ∈ union xs ys ↔ z ∈ xs ∨ z ∈ ys
  | [], ys => by simp [union]
  | x :: xs, ys => by
    rw [union, mem_unionHead xs (fun ys => mem_union xs ys), List.mem_cons]

/-! ## Many values -/

/-- The unions of neighbours. -/
def pairUp : List (List α) → List (List α)
  | xs :: ys :: rest => union xs ys :: pairUp rest
  | sets => sets

/-- The union of many sets: in each round neighbours are united, and what is left after the rounds
is united in a row. -/
def unionAll : (rounds : Nat) → List (List α) → List α
  | 0, sets => sets.foldr union []
  | n + 1, sets => unionAll n (pairUp sets)

/-- **The set of some values.** -/
def ofList (xs : List α) : List α := unionAll (xs.length.log2 + 1) (xs.map fun x => [x])

theorem mem_pairUp [Std.LawfulEqOrd α] {z : α} : ∀ sets : List (List α),
    (∃ s ∈ pairUp sets, z ∈ s) ↔ ∃ s ∈ sets, z ∈ s
  | [] => by simp [pairUp]
  | [s] => by simp [pairUp]
  | s :: t :: rest => by
    have ih := mem_pairUp (z := z) rest
    simp only [pairUp, List.mem_cons, exists_eq_or_imp, mem_union, ih, or_assoc]

theorem mem_foldr_union [Std.LawfulEqOrd α] {z : α} : ∀ sets : List (List α),
    z ∈ sets.foldr union [] ↔ ∃ s ∈ sets, z ∈ s
  | [] => by simp
  | s :: rest => by
    rw [List.foldr_cons, mem_union, mem_foldr_union rest]
    simp

theorem mem_unionAll [Std.LawfulEqOrd α] {z : α} : ∀ (n : Nat) (sets : List (List α)),
    z ∈ unionAll n sets ↔ ∃ s ∈ sets, z ∈ s
  | 0, sets => mem_foldr_union sets
  | n + 1, sets => by rw [unionAll, mem_unionAll n, mem_pairUp]

/-- **The members of the set of some values** are these values. -/
@[simp] theorem mem_ofList [Std.LawfulEqOrd α] {z : α} {xs : List α} : z ∈ ofList xs ↔ z ∈ xs := by
  rw [ofList, mem_unionAll]
  constructor
  · rintro ⟨s, hs, hz⟩
    obtain ⟨x, hx, rfl⟩ := List.mem_map.1 hs
    exact List.mem_singleton.1 hz ▸ hx
  · exact fun hz => ⟨[z], List.mem_map.2 ⟨z, hz, rfl⟩, List.mem_singleton.2 rfl⟩

/-! ## The order -/

/-- The values **increase strictly**. -/
def Strict (xs : List α) : Prop := xs.Pairwise fun x y => compare x y = .lt

theorem strict_unionHead [Std.LawfulEqOrd α] [Std.TransOrd α] {x : α} {rest : List α → List α}
    (zs : List α) (hmem : ∀ (z : α) (ys : List α), z ∈ rest ys ↔ z ∈ zs ∨ z ∈ ys)
    (hrest : ∀ ys : List α, Strict ys → Strict (rest ys)) (hx : ∀ z ∈ zs, compare x z = .lt) :
    ∀ ys : List α, Strict ys → Strict (unionHead x rest ys)
  | [], _ => by
    refine List.Pairwise.cons (fun z hz => ?_) (hrest [] .nil)
    exact hx z (by simpa [hmem] using hz)
  | y :: ys, hys => by
    obtain ⟨hy, hys'⟩ := List.pairwise_cons.1 hys
    unfold unionHead
    split
    · rename_i hxy
      refine List.Pairwise.cons (fun z hz => ?_) (hrest _ hys)
      rcases (hmem z _).1 hz with hz | hz
      · exact hx z hz
      · rcases List.mem_cons.1 hz with rfl | hz
        · exact hxy
        · exact Std.TransCmp.lt_trans hxy (hy z hz)
    · rename_i hxy
      obtain rfl := Std.LawfulEqOrd.eq_of_compare hxy
      refine List.Pairwise.cons (fun z hz => ?_) (hrest _ hys')
      rcases (hmem z _).1 hz with hz | hz
      · exact hx z hz
      · exact hy z hz
    · rename_i hxy
      have hyx : compare y x = .lt := Std.OrientedCmp.gt_iff_lt.1 hxy
      refine List.Pairwise.cons (fun z hz => ?_) (strict_unionHead zs hmem hrest hx ys hys')
      rcases (mem_unionHead zs (hmem z) ys).1 hz with (rfl | hz) | hz
      · exact hyx
      · exact Std.TransCmp.lt_trans hyx (hx z hz)
      · exact hy z hz

/-- A union is listed in strict order. -/
theorem strict_union [Std.LawfulEqOrd α] [Std.TransOrd α] : ∀ {xs ys : List α}, Strict xs →
    Strict ys → Strict (union xs ys)
  | [], _, _, hys => hys
  | x :: xs, ys, hxs, hys => by
    obtain ⟨hx, hxs'⟩ := List.pairwise_cons.1 hxs
    exact strict_unionHead xs (fun z ys => mem_union xs ys)
      (fun ys hys => strict_union hxs' hys) hx ys hys

theorem strict_pairUp [Std.LawfulEqOrd α] [Std.TransOrd α] : ∀ {sets : List (List α)},
    (∀ s ∈ sets, Strict s) → ∀ s ∈ pairUp sets, Strict s
  | [], h | [_], h => h
  | a :: b :: rest, h => by
    intro s hs
    rcases List.mem_cons.1 hs with rfl | hs
    · exact strict_union (h a (by simp)) (h b (by simp))
    · exact strict_pairUp (fun t ht => h t (by simp [ht])) s hs

theorem strict_unionAll [Std.LawfulEqOrd α] [Std.TransOrd α] : ∀ (n : Nat) {sets : List (List α)},
    (∀ s ∈ sets, Strict s) → Strict (unionAll n sets)
  | 0, [], _ => .nil
  | 0, s :: rest, h => strict_union (h s (by simp))
      (strict_unionAll 0 fun t ht => h t (by simp [ht]))
  | n + 1, _, h => strict_unionAll n (strict_pairUp h)

/-- **The set of some values is listed in strict order.** -/
theorem strict_ofList [Std.LawfulEqOrd α] [Std.TransOrd α] (xs : List α) : Strict (ofList xs) :=
  strict_unionAll _ fun s hs => by
    obtain ⟨x, _, rfl⟩ := List.mem_map.1 hs
    exact List.pairwise_singleton _ _

end TruthTable.Increasing
