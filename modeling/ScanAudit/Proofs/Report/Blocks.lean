import ScanAudit.Proofs.Explain.Rendering
import ScanAudit.Report

/-!
# Report blocks read back

A block is three lines. The second begins with the count, which has no space in it, and goes on with
the plan rows; once the count is known, it can be taken off the end of the first line, and what is
left there is the query, whatever it holds.

* `blockLines`, `toList_block` — the lines of a block
* `blockLines_inj` — what a block tells can be told from its lines
* `newline_not_mem_blockLines` — the lines of a block whose query is on one line
-/

namespace ScanAudit.Report

open Text

/-- The count of an entry, as it stands in both lines. -/
def executions (entry : Log.Entry) : String :=
  String.ofList (Decimal.ofNat entry.executions)

/-- The first line of a block. -/
def header (entry : Log.Entry) : String :=
  "Query with SCAN: " ++ entry.query ++ " is executed times: " ++ executions entry

/-- The second line of a block. -/
def planLine (entry : Log.Entry) (rows : List Explain.Row) : String :=
  executions entry ++ " " ++ Explain.renderRows rows

def blockLines (entry : Log.Entry) (rows : List Explain.Row) : List (List Char) :=
  [(header entry).toList, (planLine entry rows).toList, []]

/-- A block is its three lines, each with a line feed behind it. -/
theorem toList_block (entry : Log.Entry) (rows : List Explain.Row) :
    (block entry rows).toList = (blockLines entry rows).flatMap (· ++ ['\n']) := by
  have hlines : block entry rows = header entry ++ "\n" ++ planLine entry rows ++ "\n" ++ "\n" := by
    unfold block header planLine executions
    simp only [String.append_assoc]
  have hnewline : "\n".toList = ['\n'] := rfl
  rw [hlines]
  simp only [String.toList_append, hnewline, blockLines, List.flatMap_cons, List.flatMap_nil,
    List.append_assoc, List.nil_append, List.append_nil]

/-- A header is not empty, whatever its query is: it ends with the count. -/
theorem header_ne_nil (entry : Log.Entry) : (header entry).toList ≠ [] := by
  unfold header executions
  rw [String.toList_append, String.toList_ofList]
  exact List.append_ne_nil_of_right_ne_nil _ (Decimal.ofNat_ne_nil _)

theorem toList_planLine (entry : Log.Entry) (rows : List Explain.Row) :
    (planLine entry rows).toList =
      Decimal.ofNat entry.executions ++ ' ' :: (Explain.renderRows rows).toList := by
  rw [planLine, executions, String.toList_append, String.toList_append, String.toList_ofList,
    List.append_assoc]
  rfl

/-- The line of the plan begins with the count, and so is not empty. -/
theorem planLine_ne_nil (entry : Log.Entry) (rows : List Explain.Row) :
    (planLine entry rows).toList ≠ [] := by
  rw [toList_planLine]
  exact List.append_ne_nil_of_left_ne_nil (Decimal.ofNat_ne_nil _) _

/-! ## From the lines to what they tell -/

/-- The count and the rows can be read from the line of the plan. The first space ends the count, as
a number has none. -/
theorem planLine_inj {entry entry' : Log.Entry} {rows rows' : List Explain.Row}
    (h : (planLine entry rows).toList = (planLine entry' rows').toList) :
    entry.executions = entry'.executions ∧ rows = rows' := by
  have hspace (n : Nat) : ' ' ∉ Decimal.ofNat n :=
    fun hmem => absurd (Decimal.isDigit_of_mem_ofNat hmem) (by decide)
  rw [toList_planLine, toList_planLine] at h
  obtain ⟨hcount, hrows⟩ := append_cons_inj (hspace _) (hspace _) h
  exact ⟨Decimal.ofNat_inj hcount, Explain.renderRows_inj (String.toList_inj.mp hrows)⟩

/-- The query can be read from the header once the count is known: what stands before and behind it
is then the same. -/
theorem query_eq_of_header_eq {entry entry' : Log.Entry}
    (h : (header entry).toList = (header entry').toList)
    (hcount : entry.executions = entry'.executions) : entry.query = entry'.query := by
  have hsame : executions entry = executions entry' := by rw [executions, hcount, executions]
  unfold header at h
  simp only [hsame, String.toList_append] at h
  have hfront := List.append_cancel_right (List.append_cancel_right h)
  exact String.toList_inj.mp (List.append_cancel_left hfront)

/-- A block determines its query, its count and its rows. The count comes from the second line, and
the query from the first with its help. -/
theorem blockLines_inj {entry entry' : Log.Entry} {rows rows' : List Explain.Row}
    (h : blockLines entry rows = blockLines entry' rows') :
    entry.query = entry'.query ∧ entry.executions = entry'.executions ∧ rows = rows' := by
  obtain ⟨hheader, hrest⟩ := List.cons.inj h
  obtain ⟨hcount, hrows⟩ := planLine_inj (List.cons.inj hrest).1
  exact ⟨query_eq_of_header_eq hheader hcount, hcount, hrows⟩

theorem newline_not_mem_blockLines {entry : Log.Entry} (h : '\n' ∉ entry.query.toList)
    (rows : List Explain.Row) : ∀ line ∈ blockLines entry rows, '\n' ∉ line := by
  have hcount : '\n' ∉ Decimal.ofNat entry.executions :=
    fun hmem => absurd (Decimal.isDigit_of_mem_ofNat hmem) (by decide)
  have hheader : '\n' ∉ (header entry).toList := by
    unfold header executions
    simp only [String.toList_append, String.toList_ofList, List.mem_append, not_or]
    exact ⟨⟨⟨by decide, h⟩, by decide⟩, hcount⟩
  have hplan : '\n' ∉ (planLine entry rows).toList := by
    -- the rows have their line feeds escaped
    rw [toList_planLine, List.mem_append, List.mem_cons, not_or, not_or]
    exact ⟨hcount, by decide, Explain.newline_not_mem_renderRows rows⟩
  exact List.forall_mem_cons.mpr ⟨hheader, List.forall_mem_cons.mpr ⟨hplan, by decide⟩⟩

end ScanAudit.Report
