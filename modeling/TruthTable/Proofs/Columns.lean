import TruthTable.Proofs.Tabulation

/-!
# Proofs/Columns — the printed table can be read back

A cell is as wide as the head above it, and cells and heads alike stand with one space between them.
So a column begins at the same place in every line of the table, whatever the widths, and there the
cell has its digit.  A name that a row has no value for stops the table, the first such name of the
first such row.

* `offsets` — the places at which columns begin; `forall₂_prefix_drop` says that they do.
* `readBack` — the digits that stand at the beginnings of the columns.
* `Shows` — the line that shows a row.
* `lines_read_back` — the table of any rows shows each of them, or has no value for a name.
-/

namespace TruthTable.Table

/-! ## Where columns begin -/

/-- **The places at which columns begin**, given their widths and the place of the first; a space
stands between any two. -/
def offsets : (start : Nat) → (widths : List Nat) → List Nat
  | _, [] => []
  | start, w :: ws => start :: offsets (start + w + 1) ws

/-- **Parts with a space between them begin at their offsets**, whatever stands around them. -/
theorem forall₂_prefix_drop (after : List Char) : ∀ (before : List Char) (parts : List (List Char)),
    List.Forall₂ (fun part i => part <+: (before ++ ([' '].intercalate parts ++ after)).drop i)
      parts (offsets before.length (parts.map List.length))
  | _, [] => .nil
  | before, [part] => by
    refine .cons ?_ .nil
    rw [List.drop_left, List.intercalate_singleton]
    exact List.prefix_append _ _
  | before, part :: next :: parts => by
    have hlength : (before ++ part ++ [' ']).length = before.length + part.length + 1 := by
      rw [List.length_append, List.length_append, List.length_singleton]
    have htext : before ++ ([' '].intercalate (part :: next :: parts) ++ after) =
        before ++ part ++ [' '] ++ ([' '].intercalate (next :: parts) ++ after) := by
      simp only [List.intercalate_cons_cons, List.append_assoc]
    have hrest := forall₂_prefix_drop after (before ++ part ++ [' ']) (next :: parts)
    rw [hlength, ← htext] at hrest
    refine .cons ?_ hrest
    rw [List.drop_left, List.intercalate_cons_cons, List.append_assoc, List.append_assoc]
    exact List.prefix_append _ _

/-- Parts **as wide as others** take as much room with a space between them. -/
theorem length_intercalate_congr : ∀ {ps qs : List (List Char)},
    ps.map List.length = qs.map List.length →
      ([' '].intercalate ps).length = ([' '].intercalate qs).length
  | [], [], _ => rfl
  | [_], [_], h => by
    rw [List.intercalate_singleton, List.intercalate_singleton]
    exact (List.cons.inj h).1
  | _ :: p :: ps, _ :: q :: qs, h => by
    obtain ⟨hfirst, hrest⟩ := List.cons.inj h
    simp only [List.intercalate_cons_cons, List.length_append, hfirst,
      length_intercalate_congr hrest]
  | [_], _ :: _ :: _, h | _ :: _ :: _, [_], h => nomatch (List.cons.inj h).2

/-! ## Digits -/

/-- The truth value of a digit. -/
def bit? : Char → Option Bool
  | '0' => some false
  | '1' => some true
  | _ => none

/-- **A line read back**: the truth values at the places where the heads begin. -/
def readBack (heads : List String) (l : String) : List (Option Bool) :=
  (offsets 0 (heads.map String.length)).map fun i => l.toList[i]?.bind bit?

variable {columns : List String} {r : Row} {rows : List Row} {n : String}

theorem toList_cell (b : Bool) (head : String) : (cell b head).toList =
    (if b then '1' else '0') :: List.replicate (head.length - 1) ' ' := by
  rw [cell, padRight, String.toList_append, String.toList_ofList]
  cases b <;> rfl

/-- **A cell is as wide as its head.** -/
theorem length_cell (b : Bool) {head : String} (h : head ≠ "") :
    (cell b head).toList.length = head.length := by
  have hpos : head.length ≠ 0 := fun h0 => h (String.length_eq_zero_iff.1 h0)
  rw [toList_cell, List.length_cons, List.length_replicate]
  omega

/-- Where a cell begins **its digit stands**. -/
theorem bit?_of_cell_prefix {b : Bool} {head : String} {text : List Char} {i : Nat}
    (h : (cell b head).toList <+: text.drop i) : text[i]?.bind bit? = some b := by
  rw [toList_cell] at h
  obtain ⟨rest, hrest⟩ := h
  rw [← List.head?_drop, ← hrest]
  cases b <;> rfl

theorem map_length_cells : ∀ {heads : List String} {values : List Bool},
    values.length = heads.length → (∀ h ∈ heads, h ≠ "") →
      ((List.zipWith cell values heads).map String.toList).map List.length =
        heads.map String.length
  | [], [], _, _ => rfl
  | head :: heads, b :: values, hlength, hheads => by
    obtain ⟨hhead, hheads⟩ := List.forall_mem_cons.1 hheads
    rw [List.zipWith_cons_cons, List.map_cons, List.map_cons, List.map_cons, length_cell b hhead,
      map_length_cells (Nat.succ.inj hlength) hheads]

theorem map_bit?_of_prefix {text : List Char} : ∀ {heads : List String} {values : List Bool}
    {places : List Nat}, values.length = heads.length →
      List.Forall₂ (fun part i => part <+: text.drop i)
        ((List.zipWith cell values heads).map String.toList) places →
      places.map (fun i => text[i]?.bind bit?) = values.map some
  | [], [], [], _, _ => rfl
  | _ :: _, b :: values, i :: places, hlength, .cons hbegin hrest => by
    rw [List.map_cons, List.map_cons, bit?_of_cell_prefix hbegin,
      map_bit?_of_prefix (Nat.succ.inj hlength) hrest]

/-- The cells of a line take **as much room as the heads**. -/
theorem length_cells {heads : List String} {values : List Bool}
    (hlength : values.length = heads.length) (hheads : ∀ h ∈ heads, h ≠ "") :
    (" ".intercalate (List.zipWith cell values heads)).length =
      (" ".intercalate heads).length := by
  have hwidths := length_intercalate_congr ((map_length_cells hlength hheads).trans
    (List.map_map ..).symm)
  rwa [← String.length_toList, ← String.length_toList, String.toList_intercalate,
    String.toList_intercalate]

/-- **The cells of a line are read back**, whatever stands behind them. -/
theorem readBack_cells {heads : List String} {values : List Bool}
    (hlength : values.length = heads.length) (hheads : ∀ h ∈ heads, h ≠ "") (after : String) :
    readBack heads (" ".intercalate (List.zipWith cell values heads) ++ after) =
      values.map some := by
  have hbegin := forall₂_prefix_drop after.toList []
    ((List.zipWith cell values heads).map String.toList)
  rw [map_length_cells hlength hheads, List.nil_append] at hbegin
  rw [readBack, String.toList_append, String.toList_intercalate]
  exact map_bit?_of_prefix hlength hbegin

/-! ## Rows and lines -/

/-- The names of the columns that a row **has no value for**, in their order. -/
def missingIn (columns : List String) (r : Row) : List String :=
  columns.filter fun n => (r.assignment.value? n).isNone

/-- The names that rows have no value for, **row by row**. -/
def missing (columns : List String) (rows : List Row) : List String :=
  rows.flatMap (missingIn columns)

/-- **The line shows the row**: as wide as the heads, then a space and whether the results agree,
and all values can be read back. -/
structure Shows (columns : List String) (header : String) (r : Row) (l : String) : Prop where
  eq_append : ∃ body, body.length = header.length ∧
    l = body ++ " " ++ if r.result1 = r.result2 then "ok" else "DIFF"
  readBack_eq : readBack (columns ++ resultHeads) l =
    columns.map r.assignment.value? ++ [some r.result1, some r.result2]

/-- **A row with a value for each column** has a line that shows it. -/
theorem exists_line_shows (hcolumns : ∀ n ∈ columns, n ≠ "")
    (hvalues : ∀ n ∈ columns, (r.assignment.value? n).isSome) : ∃ l, line columns r = .ok l ∧
      Shows columns (" ".intercalate (columns ++ resultHeads)) r l := by
  obtain ⟨values, hrow, hsome⟩ := exists_rowValues_eq_ok hvalues
  have hlength : values.length = (columns ++ resultHeads).length := by
    rw [← List.length_map some, hsome, List.length_append, List.length_append, List.length_map]
    rfl
  have hheads : ∀ h ∈ columns ++ resultHeads, h ≠ "" := by
    rw [List.forall_mem_append]
    exact ⟨hcolumns, by decide⟩
  have hline : line columns r = .ok (" ".intercalate (List.zipWith cell values
      (columns ++ resultHeads)) ++ " " ++ if r.result1 = r.result2 then "ok" else "DIFF") := by
    rw [line, hrow]
    simp only [Row.same, beq_iff_eq]
    rfl
  refine ⟨_, hline, ⟨_, length_cells hlength hheads, rfl⟩, ?_⟩
  rw [String.append_assoc, readBack_cells hlength hheads, hsome]

/-! ## Names without a value -/

theorem missingIn_eq_nil_iff :
    missingIn columns r = [] ↔ ∀ n ∈ columns, (r.assignment.value? n).isSome := by
  simp only [missingIn, List.filter_eq_nil_iff, Bool.not_eq_true, Option.isNone_eq_false_iff]

/-- A row stops at **the first name that it has no value for**. -/
theorem line_eq_error (h : (missingIn columns r).head? = some n) : line columns r = .error ⟨n⟩ := by
  rw [missingIn, List.head?_filter, List.find?_eq_some_iff_append] at h
  obtain ⟨hn, read, rest, rfl, hread⟩ := h
  rw [line, rowValues, mapM_eq_error]
  · rfl
  · rw [Option.isNone_iff_eq_none.1 hn]
  · intro m hm
    obtain ⟨b, hb⟩ := Option.isSome_iff_exists.1 ((Option.not_isNone _).symm.trans (hread m hm))
    exact ⟨b, by rw [hb]⟩

/-- Rows stop at **the first such name of the first such row**. -/
theorem lines_eq_error (h : (missing columns rows).head? = some n) :
    lines columns rows = .error ⟨n⟩ := by
  rw [missing, List.head?_flatMap, List.findSome?_eq_some_iff] at h
  obtain ⟨read, r, rest, rfl, hr, hread⟩ := h
  rw [lines, mapM_eq_error (line_eq_error hr)]
  · rfl
  · intro r hr
    exact exists_line_eq_ok (missingIn_eq_nil_iff.1 (List.head?_eq_none_iff.1 (hread r hr)))

/-! ## The table read back -/

/-- **The printed table can be read back.**  For names that are not empty and rows that all have a
value for each of them there is a table: one line of heads, and below it a line for each row, in
order.  A head begins at the offset of its column, and there a line has the digit of the value, so
the values and both results of every row are known from the places of the heads.  In front of the
mark a line is as wide as the heads, and the mark tells whether the results agree.  If some row has
no value for some name there is no table, and the name is told that is missed first, row by row. -/
theorem lines_read_back (columns : List String) (rows : List Row) :
    (∀ n, (missing columns rows).head? = some n → lines columns rows = .error ⟨n⟩) ∧
    ((∀ n ∈ columns, n ≠ "") → (∀ r ∈ rows, ∀ n ∈ columns, (r.assignment.value? n).isSome) →
      ∃ header body, lines columns rows = .ok (header :: body) ∧
        header = " ".intercalate (columns ++ resultHeads) ∧
        List.Forall₂ (fun head i => head.toList <+: header.toList.drop i) (columns ++ resultHeads)
          (offsets 0 ((columns ++ resultHeads).map String.length)) ∧
        List.Forall₂ (Shows columns header) rows body) := by
  refine ⟨fun n => lines_eq_error, fun hcolumns hvalues => ?_⟩
  choose! l hl hshows using fun r hr => exists_line_shows hcolumns (hvalues r hr)
  refine ⟨_, rows.map l, by rw [lines, mapM_eq_ok hl]; rfl, rfl, ?_, ?_⟩
  · have hbegin := forall₂_prefix_drop [] [] ((columns ++ resultHeads).map String.toList)
    rw [List.map_map, List.append_nil, List.nil_append, List.forall₂_map_left_iff] at hbegin
    rw [String.toList_intercalate]
    exact hbegin
  · exact List.forall₂_map_right_iff.2 (List.forall₂_same.2 hshows)

/-- Heads of mixed widths, two rows, and one that misses the second name. -/
theorem lines_read_back_mixed :
    let columns := ["A", "B10"]
    let rows : List Row := [⟨[("A", true), ("B10", false)], true, false⟩,
      ⟨[("B10", true), ("A", false)], true, true⟩]
    lines columns rows = .ok ["A B10 expr1 expr2", "1 0   1     0     DIFF",
      "0 1   1     1     ok"] ∧
    List.Forall₂ (Shows columns "A B10 expr1 expr2") rows ["1 0   1     0     DIFF",
      "0 1   1     1     ok"] ∧
    lines columns (rows ++ [⟨[("A", true)], true, true⟩]) = .error ⟨"B10"⟩ := by
  intro columns rows
  have htable : lines columns rows = .ok ["A B10 expr1 expr2", "1 0   1     0     DIFF",
      "0 1   1     1     ok"] := by
    decide
  obtain ⟨header, body, hlines, -, -, hshows⟩ :=
    (lines_read_back columns rows).2 (by decide) (by decide)
  obtain ⟨rfl, rfl⟩ := List.cons.inj (Except.ok.inj (htable.symm.trans hlines))
  exact ⟨htable, hshows, (lines_read_back columns _).1 "B10" (by decide)⟩

end TruthTable.Table
