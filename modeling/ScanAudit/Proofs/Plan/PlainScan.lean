import ScanAudit.Proofs.Plan.Shape
import ScanAudit.Proofs.Text.Word

/-!
# Scans of a table

The description `SCAN t` names the table `t` and no index, whatever `t` is: none of the keywords of
an index can be in it, as their words do not end in `SCAN` and a name has no blanks. A single word
of the name decides the kind of the step all the same. The name is searched for `SUBQUERY`, so a
table with these letters in its name counts as a subquery, and is missing from the tables of the
plan.

* `TableName` — a name that a description can give a table
* `TableName.tableAfter?_eq` — the table that a description names
* `readDetail_scan` — the step of a scan
* `plainScan_attribution` — the step of a scan, and the tables of the plan that is only this step
-/

namespace ScanAudit.Plan

open Explain Text

/-- The words that mean something of their own after the first keyword. -/
def reservedWords : List String := ["TABLE", "CONSTANT", "SUBQUERY"]

/-- The name of a table is one word, and in no letter case is it a reserved one. -/
structure TableName (table : String) : Prop where
  word : IsWord table.toList
  notReserved : ∀ reserved ∈ reservedWords, upper table.toList ≠ reserved.toList

theorem tableName_iff {table : String} :
    TableName table ↔
      IsWord table.toList ∧ ∀ reserved ∈ reservedWords, upper table.toList ≠ reserved.toList :=
  ⟨fun h => ⟨h.word, h.notReserved⟩, fun ⟨hword, hreserved⟩ => ⟨hword, hreserved⟩⟩

instance (table : String) : Decidable (TableName table) :=
  decidable_of_iff' _ tableName_iff

theorem nonEmpty?_toList {s : String} (h : s.toList ≠ []) : nonEmpty? s.toList = some s := by
  rw [nonEmpty?, if_neg (by simpa using h), String.ofList_toList]

/-- The table after a keyword is the word there, if what begins with that word does not begin with
`TABLE` and a space. -/
theorem TableName.tableAfter?_eq {table : String} (h : TableName table) (keyword : String)
    {rest : List Char} (hword : firstWord (table.toList ++ rest) = table.toList)
    (hlegacy : Keyword.startsWith "TABLE ".toList (table.toList ++ rest) = false) :
    tableAfter? keyword (keyword.toList ++ ' ' :: (table.toList ++ rest)) = some table := by
  have hspace : ∀ c ∈ [' '], isBlank c = true := List.forall_mem_singleton.mpr isBlank_space
  have hdrop : dropBlanks ((keyword.toList ++ ' ' :: (table.toList ++ rest)).drop keyword.length) =
      table.toList ++ rest := by
    rw [← String.length_toList, List.drop_left]
    show dropBlanks ([' '] ++ (table.toList ++ rest)) = _
    rw [dropBlanks_append_of_blank hspace,
      dropBlanks_append_of_not_blank h.word.ne_nil h.word.not_blank]
  -- the two words that are no table's name
  have hconstant := h.notReserved "CONSTANT" (by decide)
  have hsubquery := h.notReserved "SUBQUERY" (by decide)
  simp only [tableAfter?, hdrop, hlegacy, Bool.false_eq_true, if_false, hword, hconstant, hsubquery,
    or_self]
  exact nonEmpty?_toList h.word.ne_nil

/-! ## The step of a scan -/

/-- A keyword of two words is not in a scan, as neither part of the description has a blank. -/
theorem occurs_scan_of_space (front back : List Char) {table : List Char} (hfront : ' ' ∉ front)
    (hscan : ¬front <:+ upper "SCAN".toList) (htable : IsWord table) :
    Keyword.occurs (front ++ ' ' :: back) ("SCAN".toList ++ ' ' :: table) = false := by
  rw [Keyword.occurs_word_append rfl hfront (by decide) fun h => absurd h hscan]
  exact Keyword.occurs_of_not_mem (List.mem_append_right _ (.head _))
    (htable.not_mem_upper isBlank_space)

/-- `SUBQUERY` is in a scan if it is in the name of the table, as it cannot begin in `SCAN`. -/
theorem mentions_scan_subquery (table : List Char) :
    mentions ("SCAN".toList ++ ' ' :: table) "SUBQUERY" = mentions table "SUBQUERY" := by
  rw [mentions, Keyword.occurs_append_cons (by decide) (by decide)]
  rfl

/-- The step of `SCAN t`: the name of the table decides its kind. -/
theorem readDetail_scan {table : String} (h : TableName table) :
    readDetail ("SCAN " ++ table) =
      { kind := if mentions table.toList "SUBQUERY" then .subqueryScan else .seqScan
        relation := some table
        description := some ("SCAN " ++ table) } := by
  have htext : ("SCAN " ++ table).toList = "SCAN".toList ++ ' ' :: table.toList := by
    rw [String.toList_append]
    rfl
  have htrim : trim ("SCAN " ++ table).toList = ("SCAN " ++ table).toList := by
    have hkept := trim_append "SCAN".toList [' '] table.toList (by decide) h.word
    rwa [← List.append_cons, ← htext] at hkept
  -- none of the keywords with a space is found
  have hcovering : mentions ("SCAN".toList ++ ' ' :: table.toList) "USING COVERING INDEX" = false :=
    occurs_scan_of_space "USING".toList _ (by decide) (by decide) h.word
  have hindex : mentions ("SCAN".toList ++ ' ' :: table.toList) "USING INDEX" = false :=
    occurs_scan_of_space "USING".toList _ (by decide) (by decide) h.word
  have hconstant : mentions ("SCAN".toList ++ ' ' :: table.toList) "CONSTANT ROW" = false :=
    occurs_scan_of_space "CONSTANT".toList _ (by decide) (by decide) h.word
  -- a name has no blank, so it does not begin with the keyword that may stand before it
  have hrelation : tableAfter? "SCAN" ("SCAN".toList ++ ' ' :: table.toList) = some table := by
    have hlegacy : Keyword.startsWith "TABLE ".toList (table.toList ++ []) = false :=
      Keyword.startsWith_of_not_mem (k := ' ') (by decide)
        (by rw [List.append_nil]; exact h.word.not_mem_upper isBlank_space)
    have hword : firstWord (table.toList ++ []) = table.toList := by
      rw [List.append_nil, h.word.firstWord_eq]
    have hafter := h.tableAfter?_eq "SCAN" hword hlegacy
    rwa [List.append_nil] at hafter
  have hform : Form.ofDetail ("SCAN".toList ++ ' ' :: table.toList) = .scan := rfl
  rw [readDetail, htrim, String.ofList_toList, htext, hform, Form.step, scanStep, hcovering, hindex,
    hconstant, mentions_scan_subquery, hrelation]
  rfl

/-! ## The plan of a single scan -/

/-- The plan of a single row at the top is the step of that row. -/
theorem ofRows_singleton {row : Row} (h : row.parent = 0) :
    Tree.ofRows [row] = .ok (.node (stepOfRow row) []) := by
  have htop : Waiting.isTop ⟨row, .node (stepOfRow row) []⟩ = true := beq_iff_eq.mpr h
  simp [Tree.ofRows, waiting, adopt, htop, Tree.ofForest]

theorem scannedTables_singleton (step : Step) :
    Tree.scannedTables (.node step []) = step.scannedTable?.toList := by
  have hnodes : (Tree.nodes (.node step [])).filterMap (·.step.scannedTable?) =
      [step].filterMap Step.scannedTable? := by
    rw [← Function.comp_def, ← List.filterMap_map, map_step_nodes, RoseTree.values_node]
    rfl
  rw [Tree.scannedTables, hnodes, List.filterMap_cons]
  cases step.scannedTable? <;> rfl

/-- The step of `SCAN t` has the table `t` and no index. It is a sequential scan, and `t` is the
only table of the plan with just this step, unless `t` has the letters of `SUBQUERY` in it, in any
case: then it is a subquery, and the plan has no table. -/
theorem plainScan_attribution {table : String} (h : TableName table) :
    readDetail ("SCAN " ++ table) =
        { kind := if mentions table.toList "SUBQUERY" then .subqueryScan else .seqScan
          relation := some table
          description := some ("SCAN " ++ table) } ∧
      ∀ id notUsed, ∃ tree, Tree.ofRows [⟨id, 0, notUsed, "SCAN " ++ table⟩] = .ok tree ∧
        tree.scannedTables = if mentions table.toList "SUBQUERY" then [] else [table] := by
  refine ⟨readDetail_scan h, fun id notUsed => ⟨_, ofRows_singleton rfl, ?_⟩⟩
  rw [scannedTables_singleton, stepOfRow, readDetail_scan h]
  split <;> rfl

/-- A table whose name does not have the letters of `SUBQUERY`. -/
theorem plainScan_attribution_messages :
    TableName "messages" ∧
      readDetail ("SCAN " ++ "messages") =
          { kind := if mentions "messages".toList "SUBQUERY" then .subqueryScan else .seqScan
            relation := some "messages"
            description := some ("SCAN " ++ "messages") } ∧
        ∀ id notUsed, ∃ tree, Tree.ofRows [⟨id, 0, notUsed, "SCAN " ++ "messages"⟩] = .ok tree ∧
          tree.scannedTables =
            if mentions "messages".toList "SUBQUERY" then [] else ["messages"] := by
  have h : TableName "messages" := by decide
  exact ⟨h, plainScan_attribution h⟩

/-- A table that is scanned, but is not a table of the plan. -/
theorem plainScan_missed_subqueryLog :
    TableName "subquery_log" ∧
      (readDetail ("SCAN " ++ "subquery_log")).kind = .subqueryScan ∧
      ∃ tree, Tree.ofRows [⟨2, 0, 0, "SCAN " ++ "subquery_log"⟩] = .ok tree ∧
        tree.scannedTables = [] := by
  have h : TableName "subquery_log" := by decide
  have hmentions : mentions "subquery_log".toList "SUBQUERY" = true := by decide
  refine ⟨h, ?_, _, ofRows_singleton rfl, ?_⟩
  · rw [readDetail_scan h, if_pos hmentions]
  · rw [scannedTables_singleton, stepOfRow, readDetail_scan h, if_pos hmentions]
    rfl

end ScanAudit.Plan
