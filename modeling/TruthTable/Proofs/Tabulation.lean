import TruthTable.Command
import TruthTable.Proofs.Disagreement

/-!
# Proofs/Tabulation — the printed table shows the rows, and marks those that differ

A row whose values are all there is a line that ends in a mark, and the mark tells whether its
results agree.  The table is one line of heads with a line for each row below, so what is counted
along the rows can be counted in print.

* `marksDifference` — a line ends in the mark of a row that differs.
* `Table.exists_lines_eq_ok` — rows with a value for each column have a table.
* `Report.Tabulated` — a table in print that shows a number of rows, some of which differ.
* `Report.tabulated_printRows` — so is the table that a report prints.
-/

namespace TruthTable

/-- The line ends in **the mark of a row that differs**. -/
def marksDifference (l : String) : Bool := " DIFF".toList.isSuffixOf l.toList

/-! ## The table -/

namespace Table

variable {columns : List String} {r : Row} {rows : List Row}

/-- **The mark tells whether the results agree.** -/
theorem marksDifference_of_line {l : String} (h : line columns r = .ok l) :
    marksDifference l = !r.same := by
  obtain ⟨values, -, hl⟩ := bind_eq_ok_iff.1 h
  obtain rfl := Except.ok.inj hl
  cases hr : r.same with
  | true =>
    have hend (cs : List Char) : " DIFF".toList.isSuffixOf (cs ++ "ok".toList) = false := by
      rw [List.isSuffixOf, List.reverse_append]
      rfl
    rw [marksDifference, if_pos rfl, String.toList_append, hend]
    rfl
  | false =>
    rw [marksDifference, if_neg Bool.false_ne_true, String.toList_append, String.toList_append,
      List.isSuffixOf_iff_suffix.2]
    · rfl
    · exact ⟨_, (List.append_assoc _ " ".toList "DIFF".toList).symm⟩

/-- A row with a value for each column **has these values and its results**. -/
theorem exists_rowValues_eq_ok (h : ∀ n ∈ columns, (r.assignment.value? n).isSome) :
    ∃ values, rowValues columns r = .ok values ∧
      values.map some = columns.map r.assignment.value? ++ [some r.result1, some r.result2] := by
  choose! value hvalue using fun n hn => Option.isSome_iff_exists.1 (h n hn)
  refine ⟨columns.map value ++ [r.result1, r.result2], ?_, ?_⟩
  · rw [rowValues, @mapM_eq_ok _ _ _ _ value]
    · rfl
    · intro n hn
      rw [hvalue n hn]
  · rw [List.map_append, List.map_map, List.map_congr_left hvalue]
    rfl

/-- A row is a line if it has a value for each column. -/
theorem exists_line_eq_ok (h : ∀ n ∈ columns, (r.assignment.value? n).isSome) :
    ∃ l, line columns r = .ok l := by
  obtain ⟨values, hvalues, -⟩ := exists_rowValues_eq_ok h
  rw [line, hvalues]
  exact ⟨_, rfl⟩

/-- **Rows with a value for each column have a table**: the heads, and below them a line for each
row. -/
theorem exists_lines_eq_ok (h : ∀ r ∈ rows, ∀ n ∈ columns, (r.assignment.value? n).isSome) :
    ∃ l, (∀ r ∈ rows, line columns r = .ok (l r)) ∧
      lines columns rows = .ok (" ".intercalate (columns ++ resultHeads) :: rows.map l) := by
  choose! l hl using fun r hr => exists_line_eq_ok (h r hr)
  refine ⟨l, hl, ?_⟩
  rw [lines, mapM_eq_ok hl]
  rfl

/-- Of the rows that differ all differ. -/
theorem differCount_differences (rows : List Row) :
    differCount (differences rows) = differCount rows := by
  simp [differCount, differences, List.countP_filter]

end Table

/-! ## The report -/

namespace Report

variable {r : Report}

/-- All rows are shown, or those that differ. -/
theorem length_displayRows (r : Report) : r.displayRows.length =
    if r.onlyDiff then Table.differCount r.rows else r.rows.length := by
  rw [displayRows, apply_ite List.length, Table.differences, ← List.countP_eq_length_filter]
  rfl

/-- All rows that differ are shown. -/
theorem differCount_displayRows (r : Report) :
    Table.differCount r.displayRows = Table.differCount r.rows := by
  rw [displayRows]
  split
  · exact Table.differCount_differences r.rows
  · rfl

theorem mem_rows_of_mem_displayRows {row : Row} (h : row ∈ r.displayRows) : row ∈ r.rows := by
  rw [displayRows] at h
  split at h
  · exact List.mem_of_mem_filter h
  · exact h

/-- **What stands in print for a number of rows**, of which `marked` differ: below the heads a line
for each row, or for each that differs if only these are wanted, with a mark on those that differ;
or a line that tells that there are none. -/
structure Tabulated (onlyDiff : Bool) (total marked : Nat) (printed : List String) : Prop where
  eq_none_iff : printed = ["No rows to display."] ↔ onlyDiff = true ∧ marked = 0
  table : ¬ (onlyDiff = true ∧ marked = 0) → ∃ heads body, printed = heads :: body ∧
    body.length = (if onlyDiff then marked else total) ∧ body.countP marksDifference = marked

/-- **The printed rows of a report** whose rows have a value for each of its names. -/
theorem tabulated_printRows (hrows : r.rows ≠ [])
    (hvalues : ∀ row ∈ r.rows, ∀ n ∈ r.names, (row.assignment.value? n).isSome) :
    Tabulated r.onlyDiff r.rows.length (Table.differCount r.rows) r.printRows := by
  have hnil : r.displayRows = [] ↔ r.onlyDiff = true ∧ Table.differCount r.rows = 0 := by
    rw [← List.length_eq_zero_iff, length_displayRows]
    cases r.onlyDiff <;> simp [hrows]
  obtain ⟨l, hl, hlines⟩ := Table.exists_lines_eq_ok fun row hrow =>
    hvalues row (mem_rows_of_mem_displayRows hrow)
  have hmarks : (r.displayRows.map l).countP marksDifference = Table.differCount r.rows := by
    rw [List.countP_map, ← differCount_displayRows, Table.differCount]
    refine List.countP_congr fun row hrow => ?_
    rw [Function.comp_apply, Table.marksDifference_of_line (hl row hrow)]
  have hprint : r.printRows = if r.displayRows = [] then ["No rows to display."]
      else " ".intercalate (r.names ++ Table.resultHeads) :: r.displayRows.map l := by
    simp only [printRows, hlines, List.isEmpty_iff]
  rw [hprint]
  constructor
  · rw [← hnil]
    split <;> simp_all
  · intro hsome
    rw [← hnil] at hsome
    exact ⟨_, _, if_neg hsome, (List.length_map _).trans (length_displayRows r), hmarks⟩

end Report

end TruthTable
