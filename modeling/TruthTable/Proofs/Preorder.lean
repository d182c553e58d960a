import Mathlib.Data.List.Basic
import Mathlib.Logic.Relation
import TruthTable.Proofs.Identifier
import TruthTable.Proofs.Library

/-!
# Proofs/Preorder — the graph of a tree is the tree in preorder

All lawful libraries give a tree the same graph, so a sketch shows what it is.  A tree is added to a
sketch that has nodes already, whose numbers are all less than their count.  So each node that comes
in is new, and the tree takes up the next numbers, as many as it has nodes: its own number is the
first of them, and its operands have one stretch each of those that follow.

What a node is linked to is then known from the node and its number alone, and the nodes below it
are the rest of its stretch.  The labels in preorder are the tree in Polish notation, and no two
trees are written alike.

* `Expr.At` — the node of a number.
* `Diagram.Sketch.add_eq` — what adding a tree adds to a sketch.
* `Expr.listing`, `Diagram.ofExpr_eq_listing` — the graph of a tree, node by node.
* `Diagram.InPreorder` — a graph that is a tree in preorder.
* `Diagram.ofExpr_preorder` — the graph of a tree is, and of no other tree.
-/

namespace TruthTable

open Diagram (Edge Node)

namespace Connective

theorem name_injective : ∀ {c c' : Connective}, c.name = c'.name → c = c' := by
  intro c c' h
  cases c <;> cases c' <;> first | rfl | exact absurd h (by decide)

theorem name_ne_not (c : Connective) : c.name ≠ Operator.not.name := by
  cases c <;> decide

end Connective

namespace Expr

/-! ## The node of a number -/

/-- **The node of a number in preorder** is a subterm: the tree itself, or one of an operand. -/
inductive At : Expr → Nat → Expr → Prop
  | root (e) : At e 0 e
  | operand {a n s} (h : At a n s) : At (not a) (n + 1) s
  | left {c l r n s} (h : At l n s) : At (bin c l r) (n + 1) s
  | right {c l r n s} (h : At r n s) : At (bin c l r) (l.size + n + 1) s

variable {a d e s t l r : Expr} {c : Connective} {n i j : Nat}

theorem At.le (h : At e n s) : n + s.size ≤ e.size := by
  induction h with
  | root => omega
  | operand _ ih | left _ ih | right _ ih =>
    simp only [size]
    omega

theorem At.lt (h : At e n s) : n < e.size :=
  Nat.lt_of_lt_of_le (Nat.lt_add_of_pos_right s.size_pos) h.le

/-- The nodes of a subterm have **the next numbers**. -/
theorem At.trans (h : At e n s) (hs : At s i t) : At e (n + i) t := by
  induction h with
  | root => rwa [Nat.zero_add]
  | operand _ ih => exact Nat.succ_add _ i ▸ (ih hs).operand
  | left _ ih => exact Nat.succ_add _ i ▸ (ih hs).left
  | @right c l r n s _ ih =>
    have hshift : l.size + n + 1 + i = l.size + (n + i) + 1 := by omega
    exact hshift ▸ (ih hs).right

theorem At.operand_of (h : At e n (not a)) : At e (n + 1) a := h.trans (.operand (.root a))

theorem At.left_of (h : At e n (bin c l r)) : At e (n + 1) l := h.trans (.left (.root l))

theorem At.right_of (h : At e n (bin c l r)) : At e (n + 1 + l.size) r := by
  rw [Nat.add_assoc, Nat.add_comm 1]
  exact h.trans (.right (.root r))

theorem At.getElem? (h : At e n s) : e.subterms[n]? = some s := by
  induction h with
  | root e => cases e <;> rfl
  | operand _ ih => rwa [subterms, List.getElem?_cons_succ]
  | left h ih =>
    rwa [subterms, List.getElem?_cons_succ,
      List.getElem?_append_left (by rw [length_subterms]; exact h.lt)]
  | right _ ih =>
    rwa [subterms, List.getElem?_cons_succ,
      List.getElem?_append_right (by rw [length_subterms]; omega), length_subterms,
      Nat.add_sub_cancel_left]

theorem At.of_getElem? : ∀ {e : Expr} {n : Nat}, e.subterms[n]? = some s → At e n s
  | e, 0, h => by
    obtain rfl := Option.some.inj ((At.root e).getElem?.symm.trans h)
    exact .root e
  | var _, _ + 1, h | const _, _ + 1, h => by cases h
  | not _, _ + 1, h => .operand (.of_getElem? h)
  | bin c l r, n + 1, h => by
    rw [subterms, List.getElem?_cons_succ] at h
    by_cases hlt : n < l.size
    · rw [List.getElem?_append_left (by rwa [length_subterms])] at h
      exact .left (.of_getElem? h)
    · obtain ⟨i, rfl⟩ := Nat.exists_eq_add_of_le (Nat.not_lt.1 hlt)
      rw [List.getElem?_append_right (by rw [length_subterms]; omega), length_subterms,
        Nat.add_sub_cancel_left] at h
      exact .right (.of_getElem? h)

/-! ## Nodes and edges of a tree -/

/-- The edges from a node of a number to its operands. -/
def outgoing (n : Nat) : Expr → List Edge
  | var _ | const _ => []
  | not _ => [⟨n, n + 1, .operand⟩]
  | bin _ l _ => [⟨n, n + 1, .left⟩, ⟨n, n + 1 + l.size, .right⟩]

/-- The nodes of a tree in preorder, **numbered from `n`**. -/
def numbered (n : Nat) (e : Expr) : List Node :=
  (e.subterms.zipIdx n).map fun p => ⟨p.2, p.1.label, p.1.isLeaf⟩

/-- The edges of the nodes of a tree in preorder, numbered from `n`. -/
def edgesFrom (n : Nat) (e : Expr) : List Edge :=
  (e.subterms.zipIdx n).flatMap fun p => p.1.outgoing p.2

/-- The edges of a tree whose nodes are numbered from `n`, **in the order in which they come**. -/
def links (n : Nat) : Expr → List Edge
  | var _ | const _ => []
  | not a => links (n + 1) a ++ [⟨n, n + 1, .operand⟩]
  | bin _ l r => links (n + 1) l ++ [⟨n, n + 1, .left⟩] ++ links (n + 1 + l.size) r ++
      [⟨n, n + 1 + l.size, .right⟩]

theorem numbered_bin (n : Nat) (c : Connective) (l r : Expr) : numbered n (bin c l r) =
    ⟨n, c.name, false⟩ :: (numbered (n + 1) l ++ numbered (n + 1 + l.size) r) := by
  simp only [numbered, subterms, List.zipIdx_cons, List.zipIdx_append, List.map_cons,
    List.map_append, length_subterms, label, isLeaf]

theorem edgesFrom_bin (n : Nat) (c : Connective) (l r : Expr) : edgesFrom n (bin c l r) =
    ⟨n, n + 1, .left⟩ :: ⟨n, n + 1 + l.size, .right⟩ ::
      (edgesFrom (n + 1) l ++ edgesFrom (n + 1 + l.size) r) := by
  simp only [edgesFrom, subterms, List.zipIdx_cons, List.zipIdx_append, List.flatMap_cons,
    List.flatMap_append, length_subterms, outgoing, List.cons_append, List.nil_append]

theorem lt_of_mem_outgoing {x : Edge} (h : x ∈ outgoing n e) : x.parent < x.child := by
  cases e with
  | var | const => nomatch h
  | not a =>
    obtain rfl := List.mem_singleton.1 h
    exact n.lt_succ_self
  | bin c l r =>
    simp only [outgoing, List.mem_cons, List.not_mem_nil, or_false] at h
    rcases h with rfl | rfl
    · exact n.lt_succ_self
    · exact Nat.lt_add_right _ n.lt_succ_self

@[simp] theorem length_numbered (n : Nat) (e : Expr) : (numbered n e).length = e.size := by
  simp [numbered]

theorem lt_of_mem_numbered {v : Node} (h : v ∈ numbered n e) : v.number < n + e.size := by
  obtain ⟨⟨s, i⟩, hs, rfl⟩ := List.mem_map.1 h
  simpa using List.snd_lt_add_of_mem_zipIdx hs

/-- Edges **stay within the numbers** of the tree. -/
theorem mem_links : ∀ {n : Nat} {e : Expr} {x : Edge}, x ∈ links n e →
    n ≤ x.parent ∧ x.parent < n + e.size
  | n, not a, x, h => by
    rcases List.mem_append.1 h with h | h <;> simp only [size]
    · have hx := mem_links h
      omega
    · obtain rfl := List.mem_singleton.1 h
      exact ⟨Nat.le_refl n, Nat.lt_add_of_pos_right (Nat.succ_pos _)⟩
  | n, bin c l r, x, h => by
    simp only [links, List.mem_append, List.mem_singleton] at h
    rcases h with ((h | rfl) | h) | rfl <;> simp only [size]
    · have hx := mem_links h
      omega
    · omega
    · have hx := mem_links h
      omega
    · omega

theorem filter_links_eq_nil (h : j < n ∨ n + e.size ≤ j) :
    (links n e).filter (·.parent = j) = [] := by
  rw [List.filter_eq_nil_iff]
  intro x hx heq
  have hparent := of_decide_eq_true heq
  have hbounds := mem_links hx
  omega

theorem filter_edge_eq_nil (h : n ≠ j) (child : Nat) (side : Side) :
    [Edge.mk n child side].filter (·.parent = j) = [] := by
  simp [h]

/-- **The edges that come from a node** depend on the node and its number. -/
theorem At.filter_links (h : At e i s) : ∀ n,
    (links n e).filter (·.parent = n + i) = s.outgoing (n + i) := by
  induction h with
  | root e =>
    intro n
    cases e with
    | var | const => rfl
    | not a =>
      have ha : (links (n + 1) a).filter (·.parent = n) = [] := filter_links_eq_nil (by omega)
      simp [links, outgoing, ha]
    | bin c l r =>
      have hl : (links (n + 1) l).filter (·.parent = n) = [] := filter_links_eq_nil (by omega)
      have hr : (links (n + 1 + l.size) r).filter (·.parent = n) = [] :=
        filter_links_eq_nil (by omega)
      simp [links, outgoing, hl, hr]
  | @operand a i s h ih =>
    intro n
    have hroot (child : Nat) (side : Side) := filter_edge_eq_nil
      (by omega : n ≠ n + 1 + i) child side
    rw [← Nat.succ_add_eq_add_succ, links]
    simp only [List.filter_append, ih, hroot, List.append_nil]
  | @left c l r i s h ih =>
    intro n
    have hlt := h.lt
    have hroot (child : Nat) (side : Side) := filter_edge_eq_nil
      (by omega : n ≠ n + 1 + i) child side
    have hr : (links (n + 1 + l.size) r).filter (·.parent = n + 1 + i) = [] :=
      filter_links_eq_nil (by omega)
    rw [← Nat.succ_add_eq_add_succ, links]
    simp only [List.filter_append, ih, hroot, hr, List.append_nil]
  | @right c l r i s h ih =>
    intro n
    have hroot (child : Nat) (side : Side) := filter_edge_eq_nil
      (by omega : n ≠ n + 1 + l.size + i) child side
    have hl : (links (n + 1) l).filter (·.parent = n + 1 + l.size + i) = [] :=
      filter_links_eq_nil (by omega)
    have hshift : n + (l.size + i + 1) = n + 1 + l.size + i := by omega
    rw [hshift, links]
    simp only [List.filter_append, ih, hroot, hl, List.append_nil, List.nil_append]

end Expr

/-! ## Adding a tree to a sketch -/

namespace Diagram.Sketch

open TruthTable.Expr (numbered links)

/-- **The numbers below `n` are used up**: there are `n` nodes, and no greater number. -/
structure Compact (n : Nat) (s : Sketch) : Prop where
  count_eq : library.count s = n
  node_lt : ∀ v ∈ s.nodes, v.number < n
  edge_lt : ∀ x ∈ s.edges, x.parent < n

/-- The sketch with more nodes and edges behind those that are there. -/
def append (s : Sketch) (vs : List Node) (xs : List Edge) : Sketch := ⟨s.nodes ++ vs, s.edges ++ xs⟩

variable {s : Sketch} {e : Expr} {n m child : Nat} {vs ws : List Node} {xs ys : List Edge}

theorem append_append (s : Sketch) (vs ws : List Node) (xs ys : List Edge) :
    (s.append vs xs).append ws ys = s.append (vs ++ ws) (xs ++ ys) := by
  simp only [append, List.append_assoc]

namespace Compact

theorem empty : Compact 0 {} := ⟨rfl, List.forall_mem_nil _, List.forall_mem_nil _⟩

theorem append (hs : s.Compact n) (hm : n + vs.length = m) (hvs : ∀ v ∈ vs, v.number < m)
    (hxs : ∀ x ∈ xs, x.parent < m) : (s.append vs xs).Compact m where
  count_eq := by
    rw [← hm, ← hs.count_eq]
    exact List.length_append
  node_lt := List.forall_mem_append.2
    ⟨fun v hv => Nat.lt_of_lt_of_le (hs.node_lt v hv) (Nat.le.intro hm), hvs⟩
  edge_lt := List.forall_mem_append.2
    ⟨fun x hx => Nat.lt_of_lt_of_le (hs.edge_lt x hx) (Nat.le.intro hm), hxs⟩

/-- A node under the next number **is new**. -/
theorem addNode (hs : s.Compact n) (label : String) (leaf : Bool) :
    library.addNode s n label leaf = s.append [⟨n, label, leaf⟩] [] := by
  rw [Sketch.append, List.append_nil, ← put_of_forall_ne fun v hv => Nat.ne_of_lt (hs.node_lt v hv)]
  rfl

/-- From a node that came later than the sketch an edge is new, if it is new **among the edges that
came later**. -/
theorem addEdge_append (hs : s.Compact n) (h : ∀ x ∈ xs, x.parent = n → x.child ≠ child)
    (side : Side) : library.addEdge (s.append vs xs) n child side =
      s.append vs (xs ++ [⟨n, child, side⟩]) := by
  have hnew : ∀ x ∈ s.edges ++ xs, (x.parent, x.child) ≠ (n, child) := by
    intro x hx heq
    obtain ⟨hparent, hchild⟩ := Prod.mk.inj heq
    rcases List.mem_append.1 hx with hx | hx
    · exact absurd hparent (Nat.ne_of_lt (hs.edge_lt x hx))
    · exact h x hx hparent hchild
  rw [Sketch.append, Sketch.append, ← List.append_assoc, ← put_of_forall_ne hnew]
  rfl

end Compact

/-- **Adding a tree** adds its nodes and edges, numbered from the count on. -/
theorem add_eq (hs : s.Compact n) : library.add s e = (n, s.append (numbered n e) (links n e)) := by
  induction e generalizing s n with
  | var | const =>
    rw [Library.add, hs.count_eq, hs.addNode]
    rfl
  | not a ih =>
    have hnode : (s.append [⟨n, (Expr.not a).label, false⟩] []).Compact (n + 1) :=
      hs.append rfl (by simp) (by simp)
    have hedge : ∀ x ∈ links (n + 1) a, x.parent = n → x.child ≠ n + 1 := fun x hx hparent =>
      absurd hparent (Nat.ne_of_gt (Expr.mem_links hx).1)
    simp only [Library.add, hs.count_eq, hs.addNode, ih hnode, append_append, List.nil_append,
      hs.addEdge_append hedge]
    rfl
  | bin c l r ihl ihr =>
    have hnode : (s.append [⟨n, (Expr.bin c l r).label, false⟩] []).Compact (n + 1) :=
      hs.append rfl (by simp) (by simp)
    have hleft : ∀ x ∈ links (n + 1) l, x.parent = n → x.child ≠ n + 1 := fun x hx hparent =>
      absurd hparent (Nat.ne_of_gt (Expr.mem_links hx).1)
    have hpast : (s.append ([⟨n, (Expr.bin c l r).label, false⟩] ++ numbered (n + 1) l)
        (links (n + 1) l ++ [⟨n, n + 1, .left⟩])).Compact (n + 1 + l.size) := by
      have hroot : n < n + 1 + l.size := Nat.lt_add_right _ n.lt_succ_self
      refine hs.append ?_ ?_ ?_
      · rw [List.length_append, Expr.length_numbered, List.length_singleton, Nat.add_assoc]
      · exact List.forall_mem_append.2
          ⟨List.forall_mem_singleton.2 hroot, fun v hv => Expr.lt_of_mem_numbered hv⟩
      · exact List.forall_mem_append.2
          ⟨fun x hx => (Expr.mem_links hx).2, List.forall_mem_singleton.2 hroot⟩
    have hright : ∀ x ∈ links (n + 1) l ++ [⟨n, n + 1, .left⟩] ++ links (n + 1 + l.size) r,
        x.parent = n → x.child ≠ n + 1 + l.size := by
      intro x hx hparent
      simp only [List.mem_append, List.mem_singleton] at hx
      rcases hx with (hx | rfl) | hx
      · exact absurd hparent (Nat.ne_of_gt (Expr.mem_links hx).1)
      · exact Nat.ne_of_lt (Nat.lt_add_of_pos_right l.size_pos)
      · have hbound := (Expr.mem_links hx).1
        omega
    simp only [Library.add, hs.count_eq, hs.addNode, ihl hnode, append_append, List.nil_append,
      hs.addEdge_append hleft, ihr hpast, hs.addEdge_append hright, Expr.numbered_bin, links]
    rfl

/-- What adding a tree to **an empty sketch** comes to. -/
theorem add_empty (e : Expr) : library.add library.empty e = (0, ⟨numbered 0 e, links 0 e⟩) :=
  add_eq .empty

end Diagram.Sketch

/-! ## The graph of a tree -/

namespace Expr

variable {d e : Expr} {n k : Nat}

/-- **The graph of a tree as it is listed**: its nodes in preorder, and their edges. -/
def listing (e : Expr) : Diagram := ⟨numbered 0 e, edgesFrom 0 e⟩

theorem map_number_numbered (n : Nat) (e : Expr) :
    (numbered n e).map Node.number = List.range' n e.size := by
  rw [numbered, List.map_map, ← length_subterms]
  exact List.zipIdx_map_snd n e.subterms

/-- The numbers that edges lead to are **all but the first**. -/
theorem perm_map_child : ∀ (n : Nat) (e : Expr),
    (n :: (edgesFrom n e).map Edge.child).Perm (List.range' n e.size)
  | _, var _ | _, const _ => .refl _
  | n, not a => (perm_map_child (n + 1) a).cons n
  | n, bin c l r => by
    have hoperands := (perm_map_child (n + 1) l).append (perm_map_child (n + 1 + l.size) r)
    rw [List.range'_append_1] at hoperands
    rw [edgesFrom_bin, size, List.map_cons, List.map_cons, List.map_append]
    refine List.Perm.cons n (List.Perm.trans (List.Perm.cons _ ?_) hoperands)
    exact List.perm_middle.symm

end Expr

namespace Diagram

open TruthTable.Expr (At edgesFrom links numbered outgoing)

variable {d e s : Expr} {n k m : Nat}

/-- What is listed for other nodes does not come from this one. -/
theorem filter_flatMap_eq_nil {xs : List Edge} {vs : List Node} (h : n ∉ vs.map Node.number) :
    (vs.flatMap fun v => xs.filter (·.parent = v.number)).filter (·.parent = n) = [] := by
  rw [List.filter_eq_nil_iff]
  intro x hx hparent
  obtain ⟨v, hv, hx⟩ := List.mem_flatMap.1 hx
  have hnumber : v.number = n :=
    (of_decide_eq_true (List.mem_filter.1 hx).2).symm.trans (of_decide_eq_true hparent)
  exact h (List.mem_map.2 ⟨v, hv, hnumber⟩)

/-- The edges of a node are **listed as they came**. -/
theorem filter_flatMap_eq {xs : List Edge} : ∀ {vs : List Node}, (vs.map Node.number).Nodup →
    n ∈ vs.map Node.number →
    (vs.flatMap fun v => xs.filter (·.parent = v.number)).filter (·.parent = n) =
      xs.filter (·.parent = n)
  | v :: vs, hvs, hn => by
    obtain ⟨hv, hvs⟩ := List.nodup_cons.1 hvs
    rw [List.flatMap_cons, List.filter_append]
    rcases List.mem_cons.1 hn with rfl | hn
    · rw [filter_flatMap_eq_nil hv, List.append_nil, List.filter_filter]
      simp only [Bool.and_self]
    · have hne : v.number ≠ n := fun heq => hv (heq ▸ hn)
      have hnone : (xs.filter (·.parent = v.number)).filter (·.parent = n) = [] := by
        rw [List.filter_eq_nil_iff]
        exact fun x hx hparent => hne <|
          (of_decide_eq_true (List.mem_filter.1 hx).2).symm.trans (of_decide_eq_true hparent)
      rw [hnone, List.nil_append, filter_flatMap_eq hvs hn]

/-- Grouped by their nodes, the edges **are listed** in preorder. -/
theorem flatMap_filter_links (e : Expr) :
    (numbered 0 e).flatMap (fun v => (links 0 e).filter (·.parent = v.number)) =
      edgesFrom 0 e := by
  rw [numbered, List.flatMap_map, edgesFrom]
  refine List.flatMap_congr fun p hp => ?_
  have hat : At e p.2 p.1 := .of_getElem? (List.mem_zipIdx_iff_getElem?.1 hp)
  simpa using hat.filter_links 0

/-- **The graph of a tree**, node by node, whatever library keeps it. -/
theorem ofExpr_eq_listing {G : Type} {lib : Library G} (hlib : lib.Lawful) (e : Expr) :
    ofExpr lib e = e.listing := by
  rw [hlib.ofExpr_eq Sketch.lawful_library, ofExpr, Sketch.add_empty, Expr.listing,
    ← flatMap_filter_links]
  rfl

/-- **The edges of a node** of the graph. -/
theorem filter_listing (h : At e n s) :
    e.listing.edges.filter (·.parent = n) = s.outgoing n := by
  rw [Expr.listing, ← flatMap_filter_links, filter_flatMap_eq]
  · simpa using h.filter_links 0
  · rw [Expr.map_number_numbered]
    exact List.nodup_range'
  · rw [Expr.map_number_numbered]
    exact List.mem_range'_1.2 ⟨Nat.zero_le n, by rw [Nat.zero_add]; exact h.lt⟩

/-- One edge leads to **every node but the first**. -/
theorem length_filter_child (e : Expr) (k : Nat) :
    (e.listing.edges.filter (·.child = k)).length = if 0 < k ∧ k < e.size then 1 else 0 := by
  have hcount : (0 :: (edgesFrom 0 e).map Edge.child).count k = if k < e.size then 1 else 0 := by
    rw [(Expr.perm_map_child 0 e).count_eq, ← List.range_eq_range', List.count_range]
  have hedges : ((edgesFrom 0 e).filter (·.child = k)).length =
      ((edgesFrom 0 e).map Edge.child).count k := by
    rw [List.count, List.countP_map, List.countP_eq_length_filter]
    rfl
  rw [Expr.listing, hedges]
  rcases Nat.eq_zero_or_pos k with rfl | hk
  · rw [List.count_cons_self, if_pos e.size_pos] at hcount
    exact Nat.succ.inj hcount
  · rw [List.count_cons_of_ne (Nat.ne_of_lt hk)] at hcount
    simp only [hcount, hk, true_and]

/-! ## Below a node -/

/-- The graph **leads from a node to another** by an edge. -/
def Leads (d : Diagram) (n k : Nat) : Prop := ∃ x ∈ d.edges, x.parent = n ∧ x.child = k

theorem leads_iff (h : At e n s) :
    e.listing.Leads n k ↔ ∃ x ∈ s.outgoing n, x.child = k := by
  rw [← filter_listing h]
  simp only [Leads, List.mem_filter, decide_eq_true_eq, and_assoc]

/-- An edge leads **to an operand**, whose nodes lie behind the node itself. -/
theorem exists_at_of_leads (h : At e n s) (hk : e.listing.Leads n k) :
    ∃ t, At e k t ∧ n < k ∧ k + t.size ≤ n + s.size := by
  obtain ⟨x, hx, rfl⟩ := (leads_iff h).1 hk
  cases s with
  | var | const => nomatch hx
  | not a =>
    obtain rfl := List.mem_singleton.1 hx
    exact ⟨a, h.operand_of, n.lt_succ_self, by simp only [Expr.size]; omega⟩
  | bin c l r =>
    simp only [outgoing, List.mem_cons, List.not_mem_nil, or_false] at hx
    rcases hx with rfl | rfl
    · exact ⟨l, h.left_of, n.lt_succ_self, by simp only [Expr.size]; omega⟩
    · exact ⟨r, h.right_of, by dsimp only; omega, by simp only [Expr.size]; omega⟩

/-- What lies below a node lies in the rest of its stretch. -/
theorem bounds_of_transGen (hk : Relation.TransGen e.listing.Leads n k) :
    ∀ {s}, At e n s → n < k ∧ k < n + s.size := by
  induction hk using Relation.TransGen.head_induction_on with
  | single hk =>
    intro s h
    obtain ⟨t, -, hlt, hle⟩ := exists_at_of_leads h hk
    have hsize := t.size_pos
    omega
  | head hm _ ih =>
    intro s h
    obtain ⟨t, ht, hlt, hle⟩ := exists_at_of_leads h hm
    have hbounds := ih ht
    omega

/-- An edge and then a way down. -/
theorem transGen_of_leads (hm : e.listing.Leads n m)
    (hrest : m < k → Relation.TransGen e.listing.Leads m k) (hle : m ≤ k) :
    Relation.TransGen e.listing.Leads n k := by
  rcases Nat.eq_or_lt_of_le hle with rfl | hlt
  · exact .single hm
  · exact .head hm (hrest hlt)

/-- All of the rest of its stretch lies below a node. -/
theorem transGen_of_bounds : ∀ {s : Expr} {n : Nat}, At e n s → n < k → k < n + s.size →
    Relation.TransGen e.listing.Leads n k
  | .var _, _, _, hlt, hsize | .const _, _, _, hlt, hsize => by
    simp only [Expr.size] at hsize
    omega
  | .not a, n, h, hlt, hsize => by
    simp only [Expr.size] at hsize
    have hleads : e.listing.Leads n (n + 1) := (leads_iff h).2 ⟨_, .head _, rfl⟩
    exact transGen_of_leads hleads
      (fun hpast => transGen_of_bounds h.operand_of hpast (by omega)) hlt
  | .bin c l r, n, h, hlt, hsize => by
    simp only [Expr.size] at hsize
    have hleft : e.listing.Leads n (n + 1) := (leads_iff h).2 ⟨_, .head _, rfl⟩
    have hright : e.listing.Leads n (n + 1 + l.size) :=
      (leads_iff h).2 ⟨_, .tail _ (.head _), rfl⟩
    by_cases hbefore : k < n + 1 + l.size
    · exact transGen_of_leads hleft
        (fun hpast => transGen_of_bounds h.left_of hpast hbefore) hlt
    · exact transGen_of_leads hright
        (fun hpast => transGen_of_bounds h.right_of hpast (by omega)) (by omega)

/-! ## The tree of a graph -/

theorem label_and_isLeaf_of_append_eq {vs ws : List Node}
    (h : numbered n d ++ vs = numbered n e ++ ws) : d.label = e.label ∧ d.isLeaf = e.isLeaf := by
  have hhead (t : Expr) : (numbered n t).head? = some ⟨n, t.label, t.isLeaf⟩ := by
    cases t <;> rfl
  have heq := congrArg List.head? h
  rw [List.head?_append, List.head?_append, hhead, hhead] at heq
  have hnode := Option.some.inj heq
  exact ⟨congrArg Node.label hnode, congrArg Node.leaf hnode⟩

theorem label_const_not_isIdentifier (b : Bool) : ¬ IsIdentifier (Expr.const b).label := by
  cases b <;> decide

/-- **No two trees are written alike** in preorder, nor is one the beginning of another. -/
theorem eq_of_numbered_append_eq : ∀ {d e : Expr} {n : Nat} {vs ws : List Node},
    (∀ v ∈ d.occurrences, IsIdentifier v) → (∀ v ∈ e.occurrences, IsIdentifier v) →
    numbered n d ++ vs = numbered n e ++ ws → d = e ∧ vs = ws
  | .var a, .var b, n, vs, ws, _, _, h => by
    obtain rfl : a = b := (label_and_isLeaf_of_append_eq h).1
    exact ⟨rfl, List.append_cancel_left h⟩
  | .const a, .const b, n, vs, ws, _, _, h => by
    obtain rfl : a = b := by
      have hlabel := (label_and_isLeaf_of_append_eq h).1
      cases a <;> cases b <;> first | rfl | exact absurd hlabel (by decide)
    exact ⟨rfl, List.append_cancel_left h⟩
  | .not a, .not b, n, vs, ws, hd, he, h => by
    have hrest : numbered (n + 1) a ++ vs = numbered (n + 1) b ++ ws := (List.cons.inj h).2
    obtain ⟨rfl, heq⟩ := eq_of_numbered_append_eq (d := a) (e := b) hd he hrest
    exact ⟨rfl, heq⟩
  | .bin c l r, .bin c' l' r', n, vs, ws, hd, he, h => by
    obtain rfl : c = c' := Connective.name_injective (label_and_isLeaf_of_append_eq h).1
    simp only [Expr.numbered_bin, List.cons_append, List.append_assoc, List.cons.injEq,
      true_and] at h
    obtain ⟨hdl, hdr⟩ := List.forall_mem_append.1 hd
    obtain ⟨hel, her⟩ := List.forall_mem_append.1 he
    obtain ⟨rfl, hr⟩ := eq_of_numbered_append_eq hdl hel h
    obtain ⟨rfl, hrest⟩ := eq_of_numbered_append_eq hdr her hr
    exact ⟨rfl, hrest⟩
  | .var a, .const b, _, _, _, hd, _, h => by
    obtain rfl : a = (Expr.const b).label := (label_and_isLeaf_of_append_eq h).1
    exact absurd (hd _ (.head _)) (label_const_not_isIdentifier b)
  | .const b, .var a, _, _, _, _, he, h => by
    obtain rfl : (Expr.const b).label = a := (label_and_isLeaf_of_append_eq h).1
    exact absurd (he _ (.head _)) (label_const_not_isIdentifier b)
  | .not _, .bin c _ _, _, _, _, _, _, h =>
    absurd (label_and_isLeaf_of_append_eq h).1.symm c.name_ne_not
  | .bin c _ _, .not _, _, _, _, _, _, h =>
    absurd (label_and_isLeaf_of_append_eq h).1 c.name_ne_not
  | .var _, .not _, _, _, _, _, _, h | .var _, .bin _ _ _, _, _, _, _, _, h
  | .const _, .not _, _, _, _, _, _, h | .const _, .bin _ _ _, _, _, _, _, _, h
  | .not _, .var _, _, _, _, _, _, h | .bin _ _ _, .var _, _, _, _, _, _, h
  | .not _, .const _, _, _, _, _, _, h | .bin _ _ _, .const _, _, _, _, _, _, h =>
    Bool.noConfusion (label_and_isLeaf_of_append_eq h).2

/-! ## In preorder -/

/-- **A graph that is a tree in preorder.** -/
structure InPreorder (d : Diagram) (e : Expr) : Prop where
  /-- The nodes are those of the tree, numbered from zero. -/
  nodes_eq : d.nodes = e.subterms.zipIdx.map fun p => ⟨p.2, p.1.label, p.1.isLeaf⟩
  /-- There is one edge less than there are nodes. -/
  length_edges : d.edges.length + 1 = e.subterms.length
  /-- One edge leads to every node but the first, and none anywhere else. -/
  incoming : ∀ k, (d.edges.filter (·.child = k)).length =
    if 0 < k ∧ k < e.subterms.length then 1 else 0
  /-- Edges lead to greater numbers. -/
  parent_lt : ∀ x ∈ d.edges, x.parent < x.child
  /-- No edge comes from a leaf. -/
  leaf : ∀ n s, e.subterms[n]? = some s → s.isLeaf = true → d.edges.filter (·.parent = n) = []
  /-- The operand of a negation is the next node. -/
  operand : ∀ n a, e.subterms[n]? = some (.not a) →
    d.edges.filter (·.parent = n) = [⟨n, n + 1, .operand⟩] ∧ e.subterms[n + 1]? = some a
  /-- The left operand of a connective is the next node, and the right one stands behind all nodes
  of the left one. -/
  operands : ∀ n c l r, e.subterms[n]? = some (.bin c l r) →
    d.edges.filter (·.parent = n) = [⟨n, n + 1, .left⟩, ⟨n, n + 1 + l.size, .right⟩] ∧
      e.subterms[n + 1]? = some l ∧ e.subterms[n + 1 + l.size]? = some r
  /-- Below a node are the nodes that follow it, as many as its subterm has besides. -/
  below : ∀ n s, e.subterms[n]? = some s →
    ∀ k, Relation.TransGen d.Leads n k ↔ n < k ∧ k < n + s.size

theorem inPreorder_listing (e : Expr) : InPreorder e.listing e where
  nodes_eq := rfl
  length_edges := by
    have hlength := (Expr.perm_map_child 0 e).length_eq
    rw [List.length_cons, List.length_map, List.length_range'] at hlength
    rw [Expr.listing, hlength, Expr.length_subterms]
  incoming k := by rw [Expr.length_subterms, length_filter_child]
  parent_lt x hx := by
    obtain ⟨p, -, hp⟩ := List.mem_flatMap.1 hx
    exact Expr.lt_of_mem_outgoing hp
  leaf n s h hs := by
    rw [filter_listing (.of_getElem? h)]
    cases s <;> first | rfl | nomatch hs
  operand n a h := by
    have hat := At.of_getElem? h
    exact ⟨filter_listing hat, hat.operand_of.getElem?⟩
  operands n c l r h := by
    have hat := At.of_getElem? h
    exact ⟨filter_listing hat, hat.left_of.getElem?, hat.right_of.getElem?⟩
  below n s h k := by
    have hat := At.of_getElem? h
    exact ⟨fun hk => bounds_of_transGen hk hat, fun hk => transGen_of_bounds hat hk.1 hk.2⟩

/-- **The nodes tell which tree it is**, if the variables are identifiers. -/
theorem eq_of_nodes_eq (hd : ∀ v ∈ d.occurrences, IsIdentifier v)
    (he : ∀ v ∈ e.occurrences, IsIdentifier v) (h : d.listing.nodes = e.listing.nodes) : d = e :=
  (eq_of_numbered_append_eq hd he (congrArg (· ++ []) h)).1

/-- **The graph of a tree is the tree in preorder**, and it is the graph of no other tree, if the
variables are identifiers: its nodes alone tell which tree it is. -/
theorem ofExpr_preorder {G : Type} {lib : Library G} (hlib : lib.Lawful) (e : Expr) :
    InPreorder (ofExpr lib e) e ∧
    ((∀ v ∈ e.occurrences, IsIdentifier v) → ∀ d : Expr, (∀ v ∈ d.occurrences, IsIdentifier v) →
      (ofExpr lib d).nodes = (ofExpr lib e).nodes → d = e) := by
  simp only [ofExpr_eq_listing hlib]
  exact ⟨inPreorder_listing e, fun he _ hd hnodes => eq_of_nodes_eq hd he hnodes⟩

theorem ofExpr_preorder_nested :
    Sketch.library.Lawful ∧
    InPreorder (ofExpr Sketch.library (.bin .xor (.not (.var "A")) (.const true)))
      (.bin .xor (.not (.var "A")) (.const true)) ∧
    ∀ d : Expr, (∀ v ∈ d.occurrences, IsIdentifier v) →
      (ofExpr Sketch.library d).nodes =
        [⟨0, "XOR", false⟩, ⟨1, "NOT", false⟩, ⟨2, "A", true⟩, ⟨3, "1", true⟩] →
      d = .bin .xor (.not (.var "A")) (.const true) := by
  have hlib := Sketch.lawful_library
  obtain ⟨hpre, hunique⟩ := ofExpr_preorder hlib (.bin .xor (.not (.var "A")) (.const true))
  have hnames : ∀ v ∈ (Expr.bin .xor (.not (.var "A")) (.const true)).occurrences,
      IsIdentifier v := List.forall_mem_singleton.2 (by decide)
  exact ⟨hlib, hpre, fun d hd hnodes => hunique hnames d hd hnodes⟩

/-- A variable that is written like a constant has the graph of the constant. -/
example : ofExpr Sketch.library (.var "1") = ofExpr Sketch.library (.const true) := by decide

end Diagram

end TruthTable
