import ScanAudit.Proofs.Log.Grammar
import ScanAudit.Proofs.Text.Lines

/-!
# Lines that are no entry

A line that has not the form of an entry is refused, with the first thing that it lacks: the
opening, the closing word behind it, exactly one separator between them, and a count behind the
separator. The causes exclude each other and leave out no line but the entries.

* `Fault` — the cause for which a line is refused, said without the course of the reader
* `Fault.readFields_eq` — the reader finds the cause
* `exists_form_or_fault` — every line has the form of an entry or a fault
* `readLine_refuses_iff` — which lines are refused, and with what
-/

namespace ScanAudit.Log

open Text Text.Decimal

/-- What is wrong with a line without its line end. Each cause says of the parts that are looked at
before it that they are in order. -/
inductive Fault (line : List Char) : Malformed → Prop
  | noOpening (h : ¬"Query: ".toList <+: line) : Fault line .missingOpening
  | noClosing (rest : List Char) (hline : line = "Query: ".toList ++ rest)
      (h : ¬"times".toList <:+ rest) : Fault line .missingClosing
  -- the last character of the body belongs to no piece; an empty body lacks none
  | separators (body : List Char) (n : Nat)
      (hline : line = "Query: ".toList ++ (body ++ "times".toList))
      (hseparators : Occurrences " was executed ".toList body.dropLast n) (h : n ≠ 1) :
      Fault line (.separatorCount (n + 1))
  -- what stands between the blanks of the count is no numeral, or one of a number out of bounds
  | noCount (body query count : List Char)
      (hline : line = "Query: ".toList ++ (body ++ "times".toList))
      (hcuts : Cuts " was executed ".toList body.dropLast [query, count])
      (h : ∀ numeral executions, Padded count numeral → Numeral numeral executions →
        UInt64.size ≤ executions) :
      Fault line (.invalidCount (String.ofList count))

/-! ## The cause is found -/

/-- A count that is no numeral within the bound is not read. -/
theorem unsigned?_trim_eq_none {count : List Char}
    (h : ∀ numeral executions, Padded count numeral → Numeral numeral executions →
      UInt64.size ≤ executions) : unsigned? maxExecutions (trim count) = none := by
  rw [Option.eq_none_iff_forall_ne_some]
  intro executions hvalue
  obtain ⟨hnumeral, hbound⟩ := unsigned?_eq_some_iff.mp hvalue
  have hsize : UInt64.size ≤ executions := h (trim count) executions (padded_trim count) hnumeral
  exact absurd (Nat.lt_of_le_pred (by decide) hbound) (Nat.not_lt.mpr hsize)

/-- The reader gives the cause. It looks at the parts in the order of the causes, and each cause
says that it comes so far. -/
theorem Fault.readFields_eq {line : List Char} {reason : Malformed} (h : Fault line reason) :
    readFields line = .error reason := by
  cases h with
  | noOpening h =>
    have hstart : dropStart? opening.toList line = none := dropStart?_eq_none_iff.mpr h
    simp only [readFields, hstart]
  | noClosing rest hline h =>
    have hend : dropEnd? closing.toList rest = none := dropEnd?_eq_none_iff.mpr h
    rw [hline]
    simp only [readFields, dropStart?_opening, hend]
  | separators body n hline hseparators h =>
    have hlength : (splitOn separator.toList body.dropLast).length = n + 1 :=
      (occurrences_iff (by decide)).mp hseparators
    rw [hline]
    simp only [readFields, dropStart?_opening, dropEnd?_closing]
    split
    · next hpieces =>
      -- two pieces would be one separator
      rw [hpieces] at hlength
      exact absurd (Nat.succ.inj hlength).symm h
    · rw [hlength]
  | noCount body query count hline hcuts h =>
    rw [hline]
    simp only [readFields, dropStart?_opening, dropEnd?_closing, splitOn_separator_iff.mpr hcuts,
      unsigned?_trim_eq_none h]

/-! ## Every line -/

/-- The parts of the line are looked at one after the other. -/
theorem exists_form_or_fault (line : List Char) :
    (∃ query executions, Form line query executions) ∨ ∃ reason, Fault line reason := by
  by_cases hopening : "Query: ".toList <+: line
  case neg => exact .inr ⟨_, .noOpening hopening⟩
  obtain ⟨rest, rfl⟩ := hopening
  by_cases hclosing : "times".toList <:+ rest
  case neg => exact .inr ⟨_, .noClosing rest rfl hclosing⟩
  obtain ⟨body, rfl⟩ := hclosing
  have hne : " was executed ".toList ≠ [] := by decide
  obtain ⟨n, hseparators⟩ := exists_occurrences hne body.dropLast
  by_cases hone : n = 1
  case neg => exact .inr ⟨_, .separators body n rfl hseparators hone⟩
  subst hone
  -- one separator, so the query and the count are the pieces, and only the count is left
  obtain ⟨query, count, hcuts⟩ := hseparators.exists_cuts_pair
  by_cases hcount : ∃ numeral executions, Padded count numeral ∧ Numeral numeral executions ∧
      executions < UInt64.size
  · obtain ⟨numeral, executions, hpadded, hnumeral, hbound⟩ := hcount
    exact .inl ⟨query, executions, .of_cuts hcuts hpadded hnumeral hbound⟩
  · right
    refine ⟨_, .noCount body query count rfl hcuts fun numeral executions hpadded hnumeral => ?_⟩
    exact Nat.not_lt.mp fun hbound => hcount ⟨numeral, executions, hpadded, hnumeral, hbound⟩

/-- As every line has the form or a fault, the causes that are found are the faults. -/
theorem readFields_eq_error_iff {line : List Char} {reason : Malformed} :
    readFields line = .error reason ↔ Fault line reason := by
  refine ⟨fun h => ?_, Fault.readFields_eq⟩
  rcases exists_form_or_fault line with ⟨query, executions, hform⟩ | ⟨found, hfault⟩
  · -- a line of the form is not refused
    rw [hform.readFields_eq] at h
    cases h
  · rw [hfault.readFields_eq] at h
    cases h
    exact hfault

/-- A refusal tells of the line without its line end. -/
theorem readLine_eq_error_iff {n : Nat} {line : String} {bad : BadLine} :
    readLine n line = .error bad ↔
      bad.lineNumber = n ∧ dropReturn line.toList = bad.line.toList ∧
        readFields bad.line.toList = .error bad.reason := by
  rcases bad with ⟨m, text, reason⟩
  unfold readLine
  dsimp only
  constructor
  · intro h
    split at h
    · next hfields =>
      cases h
      rw [String.toList_ofList]
      exact ⟨rfl, rfl, hfields⟩
    · cases h
  · rintro ⟨rfl, htext, hfields⟩
    rw [htext, hfields, String.ofList_toList]

/-- A line is refused if and only if it has a fault once a carriage return at its end is taken off,
and at most one is. The refusal has the number of the line, this text of it, and the fault. As
there is one refusal for a line, no two faults are in it. -/
theorem readLine_refuses_iff {n : Nat} {line : String} {bad : BadLine} :
    readLine n line = .error bad ↔
      bad.lineNumber = n ∧
        ∃ lineEnd, line.toList = bad.line.toList ++ lineEnd ∧
          (lineEnd = ['\r'] ∨ lineEnd = [] ∧ bad.line.toList.getLast? ≠ some '\r') ∧
          Fault bad.line.toList bad.reason := by
  rw [readLine_eq_error_iff, dropReturn_eq_iff, readFields_eq_error_iff]
  simp only [← exists_and_right, and_assoc]

/-- One carriage return is taken off, not two. A line of the opening and the closing word alone
leaves an empty text between them, which is one piece. -/
example : readLine 3 "Query: times\r\r" = .error ⟨3, "Query: times\r", .missingClosing⟩ ∧
    readLine 3 "Query: times\r" = .error ⟨3, "Query: times", .separatorCount 1⟩ := by
  exact ⟨rfl, rfl⟩

end ScanAudit.Log
