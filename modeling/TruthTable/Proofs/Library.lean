import Mathlib.Data.List.Basic
import TruthTable.Diagram

/-!
# Proofs/Library — all lawful libraries list the same graph

A library of graphs is known by its laws alone.  Two libraries that keep to them list a graph alike
as long as the same is done to it in both, and adding a tree does the same in both: each node gets
the number of nodes that are there, and an edge comes in only when both of its nodes are.  So the
graph of a tree is the same in every library, and one of them, in which a graph is just its nodes
and its edges in a row, stands for all.

* `Diagram.Sketch.lawful_library` — sketches keep to the laws.
* `Diagram.Library.Alike` — two graphs that are listed alike.
* `Diagram.Library.Lawful.ofExpr_eq` — the graph of a tree, in any library.
-/

namespace TruthTable

namespace Diagram

/-! ## Entries under keys -/

section Put

variable {α κ : Type} [DecidableEq κ] {key : α → κ} {x : α} {xs : List α}

/-- With a new key an entry **comes last**. -/
theorem put_of_forall_ne (h : ∀ y ∈ xs, key y ≠ key x) : put key x xs = xs ++ [x] := by
  refine if_neg fun hany => ?_
  obtain ⟨y, hy, heq⟩ := List.any_eq_true.1 hany
  exact h y hy (eq_of_beq heq)

/-- With a key that is there an entry **takes the place** of the one that has it. -/
theorem put_of_exists_eq (h : ∃ y ∈ xs, key y = key x) :
    put key x xs = xs.map fun y => if key y = key x then x else y := by
  obtain ⟨y, hy, heq⟩ := h
  exact if_pos (List.any_eq_true.2 ⟨y, hy, decide_eq_true heq⟩)

theorem mem_map_put {k : κ} : k ∈ (put key x xs).map key ↔ k = key x ∨ k ∈ xs.map key := by
  by_cases h : ∃ y ∈ xs, key y = key x
  · have hkeys : (put key x xs).map key = xs.map key := by
      rw [put_of_exists_eq h, List.map_map]
      refine List.map_congr_left fun y _ => ?_
      rw [Function.comp_apply, apply_ite key]
      exact ite_eq_right_iff.2 Eq.symm
    obtain ⟨y, hy, heq⟩ := h
    rw [hkeys]
    refine (or_iff_right_of_imp ?_).symm
    rintro rfl
    exact heq ▸ List.mem_map_of_mem hy
  · rw [put_of_forall_ne fun y hy heq => h ⟨y, hy, heq⟩, List.map_append, List.mem_append,
      List.map_singleton, List.mem_singleton, or_comm]

/-- **Keys that tell the same apart** put an entry in the same place. -/
theorem put_congr {κ' : Type} [DecidableEq κ'] {key' : α → κ'}
    (h : ∀ y ∈ xs, key y = key x ↔ key' y = key' x) : put key x xs = put key' x xs := by
  by_cases hkey : ∃ y ∈ xs, key y = key x
  · obtain ⟨y, hy, heq⟩ := hkey
    rw [put_of_exists_eq ⟨y, hy, heq⟩, put_of_exists_eq ⟨y, hy, (h y hy).1 heq⟩]
    refine List.map_congr_left fun z hz => ?_
    simp only [h z hz]
  · have hne : ∀ y ∈ xs, key y ≠ key x := fun y hy heq => hkey ⟨y, hy, heq⟩
    rw [put_of_forall_ne hne, put_of_forall_ne fun y hy heq => hne y hy ((h y hy).2 heq)]

/-- **Among the entries of a kind**, an entry is put if it is of the kind itself. -/
theorem filter_put {p : α → Bool} (hp : ∀ y ∈ xs, key y = key x → p y = p x) :
    (put key x xs).filter p = if p x then put key x (xs.filter p) else xs.filter p := by
  by_cases hkey : ∃ y ∈ xs, key y = key x
  · have hkind : xs.filter (p ∘ fun y => if key y = key x then x else y) = xs.filter p := by
      refine List.filter_congr fun y hy => ?_
      rw [Function.comp_apply]
      split
      · exact (hp y hy ‹_›).symm
      · rfl
    rw [put_of_exists_eq hkey, List.filter_map, hkind]
    split
    · rename_i hx
      obtain ⟨y, hy, heq⟩ := hkey
      exact (put_of_exists_eq ⟨y, List.mem_filter.2 ⟨hy, (hp y hy heq).trans hx⟩, heq⟩).symm
    · rename_i hx
      refine (List.map_congr_left fun y hy => if_neg fun heq => hx ?_).trans (List.map_id _)
      obtain ⟨hy, hpy⟩ := List.mem_filter.1 hy
      exact (hp y hy heq).symm.trans hpy
  · have hne : ∀ y ∈ xs, key y ≠ key x := fun y hy heq => hkey ⟨y, hy, heq⟩
    rw [put_of_forall_ne hne, List.filter_append,
      put_of_forall_ne fun y hy => hne y (List.mem_filter.1 hy).1]
    by_cases hx : p x = true
    · rw [if_pos hx, List.filter_cons_of_pos hx, List.filter_nil]
    · rw [if_neg hx, List.filter_cons_of_neg hx, List.filter_nil, List.append_nil]

end Put

/-! ## Sketches -/

/-- **An edge is put among the edges of its node**, and those of the other nodes stay. -/
theorem filter_put_edge (x : Edge) (xs : List Edge) (n : Nat) :
    (put (fun y => (y.parent, y.child)) x xs).filter (·.parent = n) =
      if n = x.parent then put Edge.child x (xs.filter (·.parent = n))
      else xs.filter (·.parent = n) := by
  have hkind : ∀ y ∈ xs, (y.parent, y.child) = (x.parent, x.child) →
      decide (y.parent = n) = decide (x.parent = n) := fun y _ h => by
    rw [(Prod.mk.inj h).1]
  refine (filter_put hkind).trans ?_
  by_cases hn : n = x.parent
  · rw [if_pos (decide_eq_true hn.symm), if_pos hn]
    refine put_congr fun y hy => ?_
    rw [Prod.mk.injEq, and_iff_right ((of_decide_eq_true (List.mem_filter.1 hy).2).trans hn)]
  · rw [if_neg fun h => hn (of_decide_eq_true h).symm, if_neg hn]

/-- **Sketches keep to the laws.** -/
theorem Sketch.lawful_library : Sketch.library.Lawful where
  nodes_empty := rfl
  outgoing_empty _ := rfl
  count_eq _ := rfl
  nodes_addNode _ _ _ _ := rfl
  outgoing_addNode _ _ _ _ _ := rfl
  nodes_addEdge _ _ _ _ _ _ := rfl
  outgoing_addEdge s parent child side _ _ n := filter_put_edge ⟨parent, child, side⟩ s.edges n
  edges_eq _ := rfl

namespace Library

variable {G H : Type} {lib : Library G} {lib' : Library H} {g : G} {g' : H} {n child : Nat}

/-! ## Adding a tree, step by step -/

/-- The graph with **the outermost node** of a tree. -/
def withRoot (lib : Library G) (g : G) (e : Expr) : G :=
  lib.addNode g (lib.count g) e.label e.isLeaf

/-- The graph with the outermost node of a tree, its left operand and **the edge between them**. -/
def withLeft (lib : Library G) (g : G) (c : Connective) (l r : Expr) : G :=
  let left := lib.add (lib.withRoot g (.bin c l r)) l
  lib.addEdge left.2 (lib.count g) left.1 .left

theorem add_not (g : G) (a : Expr) : (lib.add g (.not a)).2 =
    lib.addEdge (lib.add (lib.withRoot g (.not a)) a).2 (lib.count g)
      (lib.add (lib.withRoot g (.not a)) a).1 .operand := rfl

theorem add_bin (g : G) (c : Connective) (l r : Expr) : (lib.add g (.bin c l r)).2 =
    lib.addEdge (lib.add (lib.withLeft g c l r) r).2 (lib.count g)
      (lib.add (lib.withLeft g c l r) r).1 .right := rfl

/-- The numbers of the nodes. -/
def numbers (lib : Library G) (g : G) : List Nat := (lib.nodes g).map Node.number

/-- **A graph has a number, and those of another graph.** -/
structure Brings (lib : Library G) (g : G) (n : Nat) (g' : G) : Prop where
  mem : n ∈ lib.numbers g'
  subset : lib.numbers g ⊆ lib.numbers g'

namespace Lawful

theorem brings_withRoot (hlib : lib.Lawful) (g : G) (e : Expr) :
    lib.Brings g (lib.count g) (lib.withRoot g e) := by
  have hmem {k : Nat} : k ∈ lib.numbers (lib.withRoot g e) ↔
      k = lib.count g ∨ k ∈ lib.numbers g := by
    rw [numbers, withRoot, hlib.nodes_addNode]
    exact mem_map_put
  exact ⟨hmem.2 (.inl rfl), fun k hk => hmem.2 (.inr hk)⟩

/-- An edge between nodes that are there **brings no node**. -/
theorem brings_addEdge (hlib : lib.Lawful) (hn : n ∈ lib.numbers g)
    (hchild : child ∈ lib.numbers g) (side : Side) :
    lib.Brings g n (lib.addEdge g n child side) := by
  have hnumbers : lib.numbers (lib.addEdge g n child side) = lib.numbers g :=
    congrArg (List.map Node.number) (hlib.nodes_addEdge g n child side hn hchild)
  exact ⟨hnumbers ▸ hn, hnumbers ▸ List.Subset.refl _⟩

/-- **Adding a tree** brings the node whose number it tells. -/
theorem brings_add (hlib : lib.Lawful) (g : G) (e : Expr) :
    lib.Brings g (lib.add g e).1 (lib.add g e).2 := by
  induction e generalizing g with
  | var n => exact hlib.brings_withRoot g (.var n)
  | const b => exact hlib.brings_withRoot g (.const b)
  | not a ih =>
    have hroot := hlib.brings_withRoot g (.not a)
    have hoperand := ih (lib.withRoot g (.not a))
    have hedge := hlib.brings_addEdge (hoperand.subset hroot.mem) hoperand.mem .operand
    exact ⟨hedge.mem, fun k hk => hedge.subset (hoperand.subset (hroot.subset hk))⟩
  | bin c l r ihl ihr =>
    have hroot := hlib.brings_withRoot g (.bin c l r)
    have hleft := ihl (lib.withRoot g (.bin c l r))
    have hfirst : lib.Brings _ (lib.count g) (lib.withLeft g c l r) :=
      hlib.brings_addEdge (hleft.subset hroot.mem) hleft.mem .left
    have hright := ihr (lib.withLeft g c l r)
    have hlast := hlib.brings_addEdge (hright.subset hfirst.mem) hright.mem .right
    exact ⟨hlast.mem, fun k hk =>
      hlast.subset (hright.subset (hfirst.subset (hleft.subset (hroot.subset hk))))⟩

end Lawful

/-! ## Two libraries -/

/-- **Two graphs are listed alike**, each by its library. -/
structure Alike (lib : Library G) (lib' : Library H) (g : G) (g' : H) : Prop where
  nodes_eq : lib.nodes g = lib'.nodes g'
  outgoing_eq : ∀ n, lib.outgoing g n = lib'.outgoing g' n

namespace Lawful

theorem alike_empty (hlib : lib.Lawful) (hlib' : lib'.Lawful) :
    Alike lib lib' lib.empty lib'.empty where
  nodes_eq := hlib.nodes_empty.trans hlib'.nodes_empty.symm
  outgoing_eq n := (hlib.outgoing_empty n).trans (hlib'.outgoing_empty n).symm

theorem count_eq_count (hlib : lib.Lawful) (hlib' : lib'.Lawful) (h : Alike lib lib' g g') :
    lib.count g = lib'.count g' := by
  rw [hlib.count_eq, hlib'.count_eq, h.nodes_eq]

theorem alike_withRoot (hlib : lib.Lawful) (hlib' : lib'.Lawful) (h : Alike lib lib' g g')
    (e : Expr) : Alike lib lib' (lib.withRoot g e) (lib'.withRoot g' e) := by
  rw [withRoot, withRoot, hlib.count_eq_count hlib' h]
  constructor
  · rw [hlib.nodes_addNode, hlib'.nodes_addNode, h.nodes_eq]
  · intro m
    rw [hlib.outgoing_addNode, hlib'.outgoing_addNode, h.outgoing_eq]

theorem alike_addEdge (hlib : lib.Lawful) (hlib' : lib'.Lawful) (h : Alike lib lib' g g')
    (hn : n ∈ lib.numbers g) (hchild : child ∈ lib.numbers g) (side : Side) :
    Alike lib lib' (lib.addEdge g n child side) (lib'.addEdge g' n child side) := by
  have hnumbers : lib.numbers g = lib'.numbers g' := congrArg (List.map Node.number) h.nodes_eq
  have hn' : n ∈ lib'.numbers g' := hnumbers ▸ hn
  have hchild' : child ∈ lib'.numbers g' := hnumbers ▸ hchild
  constructor
  · rw [hlib.nodes_addEdge g _ _ _ hn hchild, hlib'.nodes_addEdge g' _ _ _ hn' hchild', h.nodes_eq]
  · intro m
    rw [hlib.outgoing_addEdge g _ _ _ hn hchild, hlib'.outgoing_addEdge g' _ _ _ hn' hchild',
      h.outgoing_eq]

/-- **Adding a tree** to graphs that are listed alike gives it the same number, and gives graphs
that are listed alike. -/
theorem alike_add (hlib : lib.Lawful) (hlib' : lib'.Lawful) (h : Alike lib lib' g g') (e : Expr) :
    (lib.add g e).1 = (lib'.add g' e).1 ∧ Alike lib lib' (lib.add g e).2 (lib'.add g' e).2 := by
  induction e generalizing g g' with
  | var n => exact ⟨hlib.count_eq_count hlib' h, hlib.alike_withRoot hlib' h (.var n)⟩
  | const b => exact ⟨hlib.count_eq_count hlib' h, hlib.alike_withRoot hlib' h (.const b)⟩
  | not a ih =>
    obtain ⟨hchild, halike⟩ := ih (hlib.alike_withRoot hlib' h (.not a))
    have hroot := hlib.brings_withRoot g (.not a)
    have hoperand := hlib.brings_add (lib.withRoot g (.not a)) a
    have hcount := hlib.count_eq_count hlib' h
    refine ⟨hcount, ?_⟩
    rw [add_not, add_not, ← hcount, ← hchild]
    exact hlib.alike_addEdge hlib' halike (hoperand.subset hroot.mem) hoperand.mem .operand
  | bin c l r ihl ihr =>
    obtain ⟨hchild, halike⟩ := ihl (hlib.alike_withRoot hlib' h (.bin c l r))
    have hroot := hlib.brings_withRoot g (.bin c l r)
    have hleft := hlib.brings_add (lib.withRoot g (.bin c l r)) l
    have hcount := hlib.count_eq_count hlib' h
    have hfirst : Alike lib lib' (lib.withLeft g c l r) (lib'.withLeft g' c l r) := by
      rw [withLeft, withLeft, ← hcount, ← hchild]
      exact hlib.alike_addEdge hlib' halike (hleft.subset hroot.mem) hleft.mem .left
    obtain ⟨hchild', halike'⟩ := ihr hfirst
    have hn : lib.count g ∈ lib.numbers (lib.withLeft g c l r) :=
      (hlib.brings_addEdge (hleft.subset hroot.mem) hleft.mem .left).mem
    have hright := hlib.brings_add (lib.withLeft g c l r) r
    refine ⟨hcount, ?_⟩
    rw [add_bin, add_bin, ← hcount, ← hchild']
    exact hlib.alike_addEdge hlib' halike' (hright.subset hn) hright.mem .right

/-- **The graph of a tree** is the same in all lawful libraries. -/
theorem ofExpr_eq (hlib : lib.Lawful) (hlib' : lib'.Lawful) (e : Expr) :
    ofExpr lib e = ofExpr lib' e := by
  obtain ⟨-, hnodes, hedges⟩ := hlib.alike_add hlib' (hlib.alike_empty hlib') e
  rw [ofExpr, ofExpr, hlib.edges_eq, hlib'.edges_eq, hnodes]
  simp only [hedges]

end Lawful

end Library

end Diagram

end TruthTable
