import TruthTable.Proofs.Preorder

/-!
# Proofs/DotText — the text of a graph loses nothing of the tree

No line of the text has a break in it, so the text tells its lines.  The nodes stand between two
lines that are no node's.  The line of a node has its number, its label, which ends at the next
quote, and whether it is a leaf, so the lines tell the nodes.  And the nodes in preorder tell the
tree, though no edge says on which side of its node it stands.

* `Expr.nodeLine`, `Expr.edgeLine` — the line of a node and of an edge.
* `Expr.treeLines` — all lines of a tree.
* `Diagram.Written` — a text that shows a tree, line by line.
* `Diagram.written_dot` — the text of a graph shows its tree, and no other.
-/

namespace TruthTable

open Diagram (Edge Node)

/-- What stands **in front of the first** of its kind, and what stands behind it. -/
theorem eq_of_append_cons_eq {α : Type} {x : α} {as bs : List α} : ∀ {front front' : List α},
    x ∉ front → x ∉ front' → front ++ x :: as = front' ++ x :: bs → front = front' ∧ as = bs
  | [], [], _, _, h => ⟨rfl, (List.cons.inj h).2⟩
  | [], _ :: _, _, hx, h => absurd ((List.cons.inj h).1 ▸ List.mem_cons_self) hx
  | _ :: _, [], hx, _, h => absurd ((List.cons.inj h).1 ▸ List.mem_cons_self) hx
  | _ :: front, _ :: front', hx, hx', h => by
    obtain ⟨rfl, htail⟩ := List.cons.inj h
    obtain ⟨rfl, hrest⟩ := eq_of_append_cons_eq (List.not_mem_of_not_mem_cons hx)
      (List.not_mem_of_not_mem_cons hx') htail
    exact ⟨rfl, hrest⟩

namespace Expr

variable {d e s t : Expr} {n k : Nat}

/-! ## Lines -/

/-- **The line of a node**: its number, its label, and whether it is a leaf. -/
def nodeLine (n : Nat) (s : Expr) : String :=
  toString n ++ " [label=\"" ++ s.label ++ "\"" ++
    (if s.isLeaf then " shape=\"plain\"];" else "];")

/-- **The line of an edge**: the numbers of its nodes, and nothing about its side. -/
def edgeLine (n k : Nat) : String := toString n ++ " -> " ++ toString k ++ " [];"

/-- The numbers of the operands of a node, left to right. -/
def operandNumbers (n : Nat) (s : Expr) : List Nat := (s.outgoing n).map Edge.child

theorem parent_of_mem_outgoing {x : Edge} (h : x ∈ outgoing n s) : x.parent = n := by
  cases s with
  | var | const => nomatch h
  | not a => exact congrArg Edge.parent (List.mem_singleton.1 h)
  | bin c l r =>
    simp only [outgoing, List.mem_cons, List.not_mem_nil, or_false] at h
    rcases h with rfl | rfl <;> rfl

/-- The lines in front of the nodes. -/
def dotOpening : List String :=
  ["digraph G \x7b", "// global settings", "node [shape=\"rectangle\"];", "edge [];", "// nodes"]

/-- **The lines of a tree**: a line for each node in preorder, then the edges of each node, left to
right. -/
def treeLines (e : Expr) : List String :=
  dotOpening ++ (e.subterms.zipIdx.map (fun p => nodeLine p.2 p.1) ++ "// edges" ::
    (e.subterms.zipIdx.flatMap (fun p => (operandNumbers p.2 p.1).map (edgeLine p.2)) ++ ["\x7d"]))

theorem statement_node (n : Nat) (s : Expr) :
    Node.statement {} ⟨n, s.label, s.isLeaf⟩ = nodeLine n s := by
  rw [← String.toList_inj, Node.statement, nodeLine]
  cases s.isLeaf <;>
    simp only [Diagram.statement, Diagram.attr, if_true, if_false, Bool.false_eq_true,
      String.toList_append, String.toList_intercalate, List.map_cons, List.map_nil,
      List.intercalate_cons_cons, List.intercalate_singleton, List.append_assoc] <;>
    rfl

theorem statement_edge (n k : Nat) (side : Side) :
    Edge.statement {} ⟨n, k, side⟩ = edgeLine n k := by
  simp only [Edge.statement, Diagram.statement, edgeLine, String.append_assoc]
  rfl

/-- **The lines of the graph** are those of the tree. -/
theorem dotLines_listing (e : Expr) : Diagram.dotLines {} e.listing = treeLines e := by
  have hnodes : (numbered 0 e).map (Node.statement {}) =
      e.subterms.zipIdx.map fun p => nodeLine p.2 p.1 := by
    rw [numbered, List.map_map]
    exact List.map_congr_left fun p _ => statement_node p.2 p.1
  have hedges : (edgesFrom 0 e).map (Edge.statement {}) =
      e.subterms.zipIdx.flatMap fun p => (operandNumbers p.2 p.1).map (edgeLine p.2) := by
    rw [edgesFrom, List.map_flatMap]
    refine List.flatMap_congr fun p _ => ?_
    rw [operandNumbers, List.map_map]
    refine List.map_congr_left fun x hx => ?_
    rw [Function.comp_apply, ← parent_of_mem_outgoing hx]
    exact statement_edge x.parent x.child x.side
  rw [listing, Diagram.dotLines, hnodes, hedges, treeLines, dotOpening]
  simp only [Option.toList_none, List.append_nil, List.append_assoc, List.cons_append,
    List.nil_append]

/-! ## Characters of a line -/

theorem isNameChar_of_mem_name (c : Connective) : ∀ x ∈ c.name.toList, isNameChar x = true :=
  List.all_eq_true.1 (by cases c <;> decide)

/-- Labels are made of **characters of names**. -/
theorem isNameChar_of_mem_label : ∀ {e : Expr}, (∀ v ∈ e.occurrences, IsIdentifier v) →
    ∀ s ∈ e.subterms, ∀ x ∈ s.label.toList, isNameChar x = true
  | .var n, he => List.forall_mem_singleton.2 (he n (.head _)).forall_isNameChar
  | .const b, _ => List.forall_mem_singleton.2 (List.all_eq_true.1 (by cases b <;> decide))
  | .not a, he => by
    have hname : Operator.not.name.toList.all isNameChar = true := by decide
    exact List.forall_mem_cons.2 ⟨List.all_eq_true.1 hname, isNameChar_of_mem_label (e := a) he⟩
  | .bin c l r, he => by
    obtain ⟨hl, hr⟩ := List.forall_mem_append.1 he
    exact List.forall_mem_cons.2 ⟨isNameChar_of_mem_name c, List.forall_mem_append.2
      ⟨isNameChar_of_mem_label hl, isNameChar_of_mem_label hr⟩⟩

theorem not_mem_label (he : ∀ v ∈ e.occurrences, IsIdentifier v) {x : Char}
    (hx : isNameChar x = false) : ∀ s ∈ e.subterms, x ∉ s.label.toList :=
  fun s hs hmem => Bool.false_ne_true (hx.symm.trans (isNameChar_of_mem_label he s hs x hmem))

/-- Numbers are made of digits. -/
theorem isDigit_of_mem_number {x : Char} (h : x ∈ (toString n).toList) : x.isDigit = true := by
  rw [Nat.toString_eq_ofList_toDigits, String.toList_ofList] at h
  exact Nat.isDigit_of_mem_toDigits (by decide) (by decide) h

/-- A number has **no break** in it. -/
theorem break_not_mem_number (n : Nat) : '\n' ∉ (toString n).toList :=
  fun h => absurd (isDigit_of_mem_number h) (by decide)

theorem break_not_mem_nodeLine (hs : '\n' ∉ s.label.toList) : '\n' ∉ (nodeLine n s).toList := by
  simp only [nodeLine, String.toList_append, List.mem_append, not_or]
  refine ⟨⟨⟨⟨break_not_mem_number n, by decide⟩, hs⟩, by decide⟩, ?_⟩
  split <;> decide

theorem break_not_mem_edgeLine (n k : Nat) : '\n' ∉ (edgeLine n k).toList := by
  simp only [edgeLine, String.toList_append, List.mem_append, not_or]
  exact ⟨⟨⟨break_not_mem_number n, by decide⟩, break_not_mem_number k⟩, by decide⟩

/-- **No line has a break in it** if no label has. -/
theorem break_not_mem_treeLines (he : ∀ s ∈ e.subterms, '\n' ∉ s.label.toList) :
    ∀ l ∈ treeLines e, '\n' ∉ l.toList := by
  rw [treeLines, List.forall_mem_append, List.forall_mem_append, List.forall_mem_cons,
    List.forall_mem_append]
  refine ⟨by decide, ?_, by decide, ?_, by decide⟩
  · intro l hl
    obtain ⟨p, hp, rfl⟩ := List.mem_map.1 hl
    exact break_not_mem_nodeLine (he p.1 (List.fst_mem_of_mem_zipIdx hp))
  · intro l hl
    obtain ⟨p, -, hl⟩ := List.mem_flatMap.1 hl
    obtain ⟨k, -, rfl⟩ := List.mem_map.1 hl
    exact break_not_mem_edgeLine p.2 k

/-- **The text tells its lines.** -/
theorem splitOn_dot (he : ∀ s ∈ e.subterms, '\n' ∉ s.label.toList) :
    (e.listing.dot {}).toList.splitOn '\n' = (treeLines e).map String.toList := by
  have htext : (e.listing.dot {}).toList =
      ['\n'].intercalate ((treeLines e).map String.toList) := by
    rw [Diagram.dot, String.toList_intercalate, dotLines_listing]
    rfl
  rw [htext, List.splitOn_intercalate]
  · exact List.forall_mem_map.2 (break_not_mem_treeLines he)
  · exact fun h => nomatch h

/-! ## Lines read back -/

/-- **The line of a node tells its label and whether it is a leaf**: the label ends at the next
quote. -/
theorem label_and_isLeaf_of_nodeLine_eq (hs : '"' ∉ s.label.toList) (ht : '"' ∉ t.label.toList)
    (h : nodeLine n s = nodeLine n t) : s.label = t.label ∧ s.isLeaf = t.isLeaf := by
  have hline (r : Expr) : (nodeLine n r).toList = (toString n ++ " [label=\"").toList ++
      (r.label.toList ++ '"' :: (if r.isLeaf then " shape=\"plain\"];" else "];").toList) := by
    simp only [nodeLine, String.toList_append, List.append_assoc]
    rfl
  rw [← String.toList_inj, hline, hline] at h
  obtain ⟨hlabel, hend⟩ := eq_of_append_cons_eq hs ht (List.append_cancel_left h)
  refine ⟨String.toList_inj.1 hlabel, ?_⟩
  cases hsleaf : s.isLeaf <;> cases htleaf : t.isLeaf <;> rw [hsleaf, htleaf] at hend <;>
    first | rfl | exact absurd hend (by decide)

/-- **The lines of the nodes tell the nodes.** -/
theorem nodes_eq_of_nodeLines_eq : ∀ {n : Nat} {ss ts : List Expr},
    (∀ s ∈ ss, '"' ∉ s.label.toList) → (∀ t ∈ ts, '"' ∉ t.label.toList) →
    (ss.zipIdx n).map (fun p => nodeLine p.2 p.1) = (ts.zipIdx n).map (fun p => nodeLine p.2 p.1) →
    (ss.zipIdx n).map (fun p => Node.mk p.2 p.1.label p.1.isLeaf) =
      (ts.zipIdx n).map fun p => Node.mk p.2 p.1.label p.1.isLeaf
  | _, [], [], _, _, _ => rfl
  | n, s :: ss, t :: ts, hss, hts, h => by
    obtain ⟨hs, hss⟩ := List.forall_mem_cons.1 hss
    obtain ⟨ht, hts⟩ := List.forall_mem_cons.1 hts
    obtain ⟨hline, hlines⟩ := List.cons.inj h
    obtain ⟨hlabel, hleaf⟩ := label_and_isLeaf_of_nodeLine_eq hs ht hline
    have hnodes := nodes_eq_of_nodeLines_eq hss hts hlines
    rw [List.zipIdx_cons, List.zipIdx_cons, List.map_cons, List.map_cons, hnodes, hlabel, hleaf]

/-- Of the lines of the nodes **none is that in front of the edges**. -/
theorem edges_not_mem_nodeLines (e : Expr) :
    "// edges" ∉ e.subterms.zipIdx.map fun p => nodeLine p.2 p.1 := by
  intro h
  obtain ⟨p, -, hp⟩ := List.mem_map.1 h
  have hquote : '"' ∈ (nodeLine p.2 p.1).toList := by
    simp only [nodeLine, String.toList_append, List.mem_append]
    exact .inl (.inr (by decide))
  rw [hp] at hquote
  exact absurd hquote (by decide)

end Expr

namespace Diagram

variable {d e : Expr}

/-- **A text that shows a tree, line by line.** -/
structure Written (e : Expr) (text : String) : Prop where
  /-- The lines are a line for each node, numbered in preorder from zero, and then a line for each
  operand of each node, those of a node together. -/
  splitOn_eq : text.toList.splitOn '\n' = e.treeLines.map String.toList
  /-- No label has in it what could end it or the line. -/
  label : ∀ s ∈ e.subterms, ∀ c ∈ s.label.toList, c ≠ '"' ∧ c ≠ '\\' ∧ c ≠ '\n'
  /-- The numbers of the operands are those of their nodes, left to right. -/
  operands : ∀ (n : Nat) (s : Expr), e.subterms[n]? = some s →
    List.Forall₂ (fun k t => e.subterms[k]? = some t) (s.operandNumbers n) s.children
  ascending : ∀ (n : Nat) (s : Expr), e.subterms[n]? = some s →
    (n :: s.operandNumbers n).Pairwise (· < ·)

theorem written_dot_listing (he : ∀ v ∈ e.occurrences, IsIdentifier v) :
    Written e (e.listing.dot {}) where
  splitOn_eq := Expr.splitOn_dot (Expr.not_mem_label he (by decide))
  label s hs c hc := by
    refine ⟨?_, ?_, ?_⟩ <;> rintro rfl <;>
      exact Expr.not_mem_label he (by decide) s hs hc
  operands n s h := by
    have hat := Expr.At.of_getElem? h
    cases s with
    | var | const => exact .nil
    | not a => exact .cons hat.operand_of.getElem? .nil
    | bin c l r => exact .cons hat.left_of.getElem? (.cons hat.right_of.getElem? .nil)
  ascending n s _ := by
    cases s with
    | var | const => exact List.pairwise_singleton _ _
    | not a => exact List.pairwise_pair.2 n.lt_succ_self
    | bin c l r =>
      have hright : n + 1 < n + 1 + l.size := Nat.lt_add_of_pos_right l.size_pos
      exact List.isChain_iff_pairwise.1
        (.cons_cons n.lt_succ_self (.cons_cons hright (.singleton _)))

/-- **The text of a graph tells which tree it is**, if the variables are identifiers. -/
theorem eq_of_dot_eq (hd : ∀ v ∈ d.occurrences, IsIdentifier v)
    (he : ∀ v ∈ e.occurrences, IsIdentifier v)
    (h : d.listing.dot {} = e.listing.dot {}) : d = e := by
  have hlines : d.treeLines = e.treeLines := by
    refine List.map_injective_iff.2 (fun _ _ => String.toList_inj.1) ?_
    rw [← (written_dot_listing hd).splitOn_eq, ← (written_dot_listing he).splitOn_eq, h]
  obtain ⟨hnodes, -⟩ := eq_of_append_cons_eq (Expr.edges_not_mem_nodeLines d)
    (Expr.edges_not_mem_nodeLines e) (List.append_cancel_left hlines)
  refine eq_of_nodes_eq hd he ?_
  exact Expr.nodes_eq_of_nodeLines_eq (Expr.not_mem_label hd (by decide))
    (Expr.not_mem_label he (by decide)) hnodes

/-- **The text of a graph loses nothing of the tree**, if the variables are identifiers.  It has a
line for each node, numbered in preorder, whose label has no quote, no backslash and no break in it;
and a line for each operand of each node, those of a node together and left to right.  And it is the
text of no other tree. -/
theorem written_dot {G : Type} {lib : Library G} (hlib : lib.Lawful)
    (he : ∀ v ∈ e.occurrences, IsIdentifier v) :
    Written e ((ofExpr lib e).dot {}) ∧
    ∀ d : Expr, (∀ v ∈ d.occurrences, IsIdentifier v) →
      (ofExpr lib d).dot {} = (ofExpr lib e).dot {} → d = e := by
  simp only [ofExpr_eq_listing hlib]
  exact ⟨written_dot_listing he, fun _ hd h => eq_of_dot_eq hd he h⟩

/-- A variable that is named like a connective stands beside the connective and a constant. -/
theorem written_dot_named_and :
    let lib := Sketch.library
    let e : Expr := .bin .and (.var "AND") (.not (.const true))
    let text := "digraph G \x7b\n// global settings\nnode [shape=\"rectangle\"];\nedge [];\n" ++
      "// nodes\n0 [label=\"AND\"];\n1 [label=\"AND\" shape=\"plain\"];\n2 [label=\"NOT\"];\n" ++
      "3 [label=\"1\" shape=\"plain\"];\n// edges\n0 -> 1 [];\n0 -> 2 [];\n2 -> 3 [];\n\x7d"
    lib.Lawful ∧ (ofExpr lib e).dot {} = text ∧ Written e text ∧
      ∀ d : Expr, (∀ v ∈ d.occurrences, IsIdentifier v) →
        (ofExpr lib d).dot {} = text → d = e := by
  intro lib e text
  have hlib : lib.Lawful := Sketch.lawful_library
  have htext : (ofExpr lib e).dot {} = text := by decide +kernel
  have he : ∀ v ∈ e.occurrences, IsIdentifier v := List.forall_mem_singleton.2 (by decide)
  exact ⟨hlib, htext, htext ▸ written_dot hlib he⟩

end Diagram

end TruthTable
