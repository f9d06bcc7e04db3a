import ScanAudit.Proofs.Audit.Policies
import ScanAudit.Proofs.Log.Numbering

/-!
# Logs without failed lines

A line that fails can be cleared: a blank line in its place keeps the numbers of the lines behind
it. An audit of the cleared log has nothing to skip, and its lines are the checked entries of the
log as it was. So a skipped line leaves nothing behind but its count.

* `Fails` — a line that an audit skips
* `BlankLine`, `clearFrom`, `cleared` — a log with a blank line for each that fails
* `filter_orBlank` — what clearing does to one line
* `filter_lines_clearFrom`, `numberedLines_cleared` — what it does to all of them
* `run_stop_cleared` — the audit of a cleared log
-/

namespace ScanAudit.Audit

open Text

/-- A line is no checked entry because it cannot be read, or because its query is rejected. -/
theorem checkedLine?_eq_none_iff {db : Database} {line : List Char × Nat} :
    checkedLine? db line = none ↔ ∃ error, LineFails db line error := by
  constructor
  · intro hnone
    obtain ⟨error, -, hfails⟩ := lineVerdict_of_none hnone
    exact ⟨error, hfails⟩
  · rintro ⟨error, hfails⟩
    unfold checkedLine?
    cases hfails with
    | malformed hline => rw [hline]
    | rejected hline hcheck => simp only [hline, hcheck]

/-- A line that is not blank and that cannot be read, or whose query the database rejects. -/
def Fails (db : Database) (line : List Char × Nat) : Prop :=
  line.1.all isBlank = false ∧ ∃ error, LineFails db line error

instance (db : Database) (line : List Char × Nat) : Decidable (Fails db line) :=
  decidable_of_iff (line.1.all isBlank = false ∧ (checkedLine? db line).isNone)
    (and_congr_right fun _ => by rw [Option.isNone_iff_eq_none, checkedLine?_eq_none_iff])

/-- A text to put in place of a line. -/
structure BlankLine where
  text : List Char
  blank : text.all isBlank = true
  oneLine : '\n' ∉ text

variable (db : Database) (blank : Nat → BlankLine)

/-- A piece of the log between two line feeds, or a blank line for it if the line that is read from
it fails. -/
def orBlank (n : Nat) (line piece : List Char) : List Char :=
  if Fails db (line, n) then (blank n).text else piece

/-- The text of the given pieces, the first of them on line `n`. A carriage return before a line
feed does not belong to the line. -/
def clearFrom (n : Nat) : List (List Char) → List Char
  | [] => []
  | [last] => orBlank db blank n last last
  | piece :: next :: pieces =>
    orBlank db blank n (dropReturn piece) piece ++ '\n' :: clearFrom (n + 1) (next :: pieces)

/-- The log with a blank line in place of each line that fails. -/
def cleared (log : String) : String :=
  String.ofList (clearFrom db blank 1 (log.toList.splitOn '\n'))

/-! ## One line -/

variable {db blank}

/-- A blank line in the place of a piece is one line, as the piece was. -/
theorem newline_not_mem_orBlank {n : Nat} {line piece : List Char} (h : '\n' ∉ piece) :
    '\n' ∉ orBlank db blank n line piece := by
  unfold orBlank
  split
  · exact (blank n).oneLine
  · exact h

/-- A line that fails is blank once it is cleared, and so it is left out. The reader of the piece
is a variable, as it drops a carriage return from all pieces but the last. -/
theorem filter_orBlank (db : Database) (read : List Char → List Char) {n : Nat}
    (hread : (read (blank n).text).all isBlank = true) (piece : List Char) :
    [(read (orBlank db blank n (read piece) piece), n)].filter (!·.1.all isBlank) =
      ([(read piece, n)].filter (!·.1.all isBlank)).filter fun l => (checkedLine? db l).isSome := by
  unfold orBlank
  by_cases hblank : (read piece).all isBlank = true
  · have hkept : ¬Fails db (read piece, n) := fun hfails => by
      -- a blank line does not fail, so it is left as it is
      rw [hfails.1] at hblank
      cases hblank
    rw [if_neg hkept]
    simp [hblank]
  · rw [Bool.not_eq_true] at hblank
    have hlisted : [(read piece, n)].filter (!·.1.all isBlank) = [(read piece, n)] := by
      simp [hblank]
    rw [hlisted]
    cases hline : checkedLine? db (read piece, n) with
    | none =>
      -- a line that is no checked entry: blank on one side, filtered out on the other
      have hfails : Fails db (read piece, n) := ⟨hblank, checkedLine?_eq_none_iff.mp hline⟩
      rw [if_pos hfails]
      simp [hread, hline]
    | some e =>
      -- a checked entry is the same on both sides
      have hkept : ¬Fails db (read piece, n) := fun hfails => by
        rw [checkedLine?_eq_none_iff.mpr hfails.2] at hline
        cases hline
      rw [if_neg hkept, hlisted]
      simp [hline]

/-- A carriage return more or less does not matter for a blank line. -/
theorem all_isBlank_dropReturn {cs : List Char} (h : cs.all isBlank = true) :
    (dropReturn cs).all isBlank = true :=
  List.all_eq_true.mpr fun c hc => List.all_eq_true.mp h c (dropReturn_subset cs hc)

/-! ## All lines -/

/-- By induction over the ended lines, in front of a last one without an end. -/
theorem filter_lines_clearFrom {ls : List (List Char)} {last : List Char}
    (hls : ∀ line ∈ ls, '\n' ∉ line) (hlast : '\n' ∉ last) (n : Nat) :
    ((lines (clearFrom db blank n (ls ++ [last]))).zipIdx n).filter (!·.1.all isBlank) =
      (((lines (ls.flatMap (· ++ ['\n']) ++ last)).zipIdx n).filter (!·.1.all isBlank)).filter
        fun l => (checkedLine? db l).isSome := by
  induction ls generalizing n with
  | nil =>
    -- the last line has no end, and keeps a carriage return
    have hcleared : '\n' ∉ orBlank db blank n last last := newline_not_mem_orBlank hlast
    show ((lines (orBlank db blank n last last)).zipIdx n).filter _ =
      (((lines last).zipIdx n).filter _).filter _
    rw [Log.filter_lines_of_not_mem hcleared, Log.filter_lines_of_not_mem hlast]
    exact filter_orBlank db id (blank n).blank last
  | cons piece ls ih =>
    obtain ⟨hpiece, hlater⟩ := List.forall_mem_cons.mp hls
    -- clearing goes by the pieces, which are not over with this one
    obtain ⟨next, pieces, hnext⟩ : ∃ next pieces, ls ++ [last] = next :: pieces :=
      List.exists_cons_of_ne_nil (by simp)
    have hclear : clearFrom db blank n (piece :: ls ++ [last]) =
        orBlank db blank n (dropReturn piece) piece ++
          '\n' :: clearFrom db blank (n + 1) (ls ++ [last]) := by
      rw [List.cons_append, hnext]
      rfl
    have htext : (piece :: ls).flatMap (· ++ ['\n']) ++ last =
        piece ++ '\n' :: (ls.flatMap (· ++ ['\n']) ++ last) := by simp
    -- the two logs have their first lines side by side, and the same numbers on the others
    have hcons (line : List Char) (lines : List (List Char)) :
        ((line :: lines).zipIdx n).filter (!·.1.all isBlank) =
          [(line, n)].filter (!·.1.all isBlank) ++
            (lines.zipIdx (n + 1)).filter (!·.1.all isBlank) :=
      List.filter_append [(line, n)] (lines.zipIdx (n + 1))
    have hfirst := filter_orBlank db dropReturn (all_isBlank_dropReturn (blank n).blank) piece
    rw [hclear, htext, lines_append_cons (newline_not_mem_orBlank hpiece),
      lines_append_cons hpiece, hcons, hcons, hfirst, ih hlater, List.filter_append]

/-- The lines of a cleared log are those of the log that are checked entries, in their places. -/
theorem numberedLines_cleared (db : Database) (blank : Nat → BlankLine) (log : String) :
    Log.numberedLines (cleared db blank log) =
      (Log.numberedLines log).filter fun l => (checkedLine? db l).isSome := by
  obtain ⟨ls, last, htext, hls, hlast⟩ := exists_eq_flatMap_append log.toList
  have hsplit : log.toList.splitOn '\n' = ls ++ [last] := by
    rw [htext]
    exact splitOn_flatMap_append hls hlast
  rw [Log.numberedLines, cleared, String.toList_ofList, hsplit, filter_lines_clearFrom hls hlast,
    ← htext, Log.numberedLines]

/-! ## The audits of the two logs -/

/-- Only lines that are checked entries give any. -/
theorem checkedEntries_filter_isSome (lines : List (List Char × Nat)) :
    checkedEntries db (lines.filter fun l => (checkedLine? db l).isSome) =
      checkedEntries db lines := by
  rw [checkedEntries, List.filterMap_filter, checkedEntries]
  congr 1
  funext line
  cases checkedLine? db line <;> rfl

/-- An audit of the lines that are left has nothing to stop at. -/
theorem allChecked_filter_isSome (lines : List (List Char × Nat)) :
    AllChecked db (lines.filter fun l => (checkedLine? db l).isSome) :=
  fun _ hline => Option.isSome_iff_exists.mp (List.mem_filter.mp hline).2

/-- An audit that stops at a failed line completes on the log with all failed lines cleared. It has
the report and the summary of the audit that skips them in the log as it was, but that nothing is
skipped. -/
theorem run_stop_cleared (db : Database) (blank : Nat → BlankLine) (log : String) :
    ∃ summary, (run db .skip log none).result = .ok summary ∧
      (run db .stop (cleared db blank log) none).result = .ok { summary with skipped := 0 } ∧
      (run db .stop (cleared db blank log) none).output = (run db .skip log none).output := by
  have hlines := numberedLines_cleared db blank log
  have hall : AllChecked db (Log.numberedLines (cleared db blank log)) :=
    hlines ▸ allChecked_filter_isSome _
  have hentries : checkedEntries db (Log.numberedLines (cleared db blank log)) =
      checkedEntries db (Log.numberedLines log) := by
    rw [hlines, checkedEntries_filter_isSome]
  obtain ⟨summary, hskip⟩ := run_skip_ok db log
  obtain ⟨final, hfinal⟩ := run_skip_ok db (cleared db blank log)
  obtain ⟨hwritten, hsummary⟩ := run_of_ok hskip
  obtain ⟨hwritten', hsummary'⟩ := run_of_ok hfinal
  refine ⟨summary, hskip, ?_, ?_⟩
  · -- both summaries are read off the same checked entries
    rw [run_stop_of_allChecked hall, hfinal, hsummary', hsummary, failures_eq_zero_iff.mpr hall]
    simp only [flaggedEntries, hentries]
  · rw [run_stop_of_allChecked hall, Run.output, Run.output, hwritten, hwritten']
    simp only [flaggedEntries, hentries]

/-- The numbers of the lines behind a cleared one stay. -/
example : cleared sampleDatabase (fun _ => ⟨[' '], rfl, by decide⟩) sampleLog =
    "Query: q was executed 2 times\n\n \n" ++
      "Query: r was executed 7 times\nQuery: q was executed 3 times" := by
  decide +kernel

end ScanAudit.Audit
