import ScanAudit.Log.Entry
import ScanAudit.Proofs.Text.Numeral
import ScanAudit.Proofs.Text.Separator

/-!
# The grammar of a log line

A line of the log is the opening, a body, one character, whatever it is, and the closing word. The
separator cuts the body into the query and a count with blanks around it. The reader takes the
lines of this form and no others, and reads exactly these parts.

* `Form` — a line without its line end, with the query and the count that it holds
* `readFields_eq_ok_iff` — the reader of fields takes this form
* `dropReturn_append`, `exists_lineEnd` — the line end that may stand behind it
* `readLine_accepts_iff` — what the reader of lines takes
-/

namespace ScanAudit.Log

open Text Text.Decimal

/-- A line without its line end, with the query and the count that it holds. The character `any`
before the closing word is no part of either. -/
inductive Form (line query : List Char) (executions : Nat) : Prop
  | intro (body count numeral : List Char) (any : Char)
      (hline : line = "Query: ".toList ++ body ++ [any] ++ "times".toList)
      (hcuts : Cuts " was executed ".toList body [query, count])
      (hcount : Padded count numeral)
      (hnumeral : Numeral numeral executions)
      (hbound : executions < UInt64.size)

/-- The separator is not empty, so that its cuts are what the reader splits at. -/
theorem splitOn_separator_iff {body : List Char} {pieces : List (List Char)} :
    splitOn separator.toList body = pieces ↔ Cuts " was executed ".toList body pieces :=
  splitOn_eq_iff (by decide)

theorem dropStart?_opening (rest : List Char) :
    dropStart? opening.toList ("Query: ".toList ++ rest) = some rest :=
  dropStart?_eq_some_iff.mpr rfl

theorem dropEnd?_closing (body : List Char) :
    dropEnd? closing.toList (body ++ "times".toList) = some body :=
  dropEnd?_eq_some_iff.mpr rfl

/-- A line of the form is read: the reader takes off the opening, the closing word and one
character, finds two pieces, and reads the count. -/
theorem Form.readFields_eq {line query : List Char} {executions : Nat}
    (h : Form line query executions) : readFields line = .ok (query, executions) := by
  obtain ⟨body, count, numeral, any, rfl, hcuts, hcount, hnumeral, hbound⟩ := h
  have hpieces : splitOn separator.toList (body ++ [any]).dropLast = [query, count] := by
    rw [List.dropLast_concat]
    exact splitOn_separator_iff.mpr hcuts
  have hvalue : unsigned? maxExecutions (trim count) = some executions := by
    rw [hnumeral.trim_eq_iff.mpr hcount]
    exact unsigned?_eq_some_iff.mpr ⟨hnumeral, Nat.le_sub_one_of_lt hbound⟩
  rw [List.append_assoc, List.append_assoc, ← List.append_assoc body]
  simp only [readFields, dropStart?_opening, dropEnd?_closing, hpieces, hvalue]

/-- The parts that a reader finds make the form of a line. The character that it drops is the last
of what stands before the closing word. -/
theorem Form.of_cuts {body query count numeral : List Char} {executions : Nat}
    (hcuts : Cuts " was executed ".toList body.dropLast [query, count])
    (hcount : Padded count numeral) (hnumeral : Numeral numeral executions)
    (hbound : executions < UInt64.size) :
    Form ("Query: ".toList ++ (body ++ "times".toList)) query executions := by
  -- an empty text has one piece, so there is a character to drop
  have hne : body ≠ [] := by
    rintro rfl
    cases splitOn_separator_iff.mpr hcuts
  refine .intro body.dropLast count numeral (body.getLast hne) ?_ hcuts hcount hnumeral hbound
  rw [List.append_assoc _ body.dropLast, List.dropLast_concat_getLast hne, List.append_assoc]

/-- What is read has the form. By the branches of the reader, all but one of which refuse the line.
-/
theorem form_of_readFields {line query : List Char} {executions : Nat}
    (h : readFields line = .ok (query, executions)) : Form line query executions := by
  unfold readFields at h
  split at h
  · cases h
  · next rest hstart =>
    split at h
    · cases h
    · next text hend =>
      split at h
      · next q count hpieces =>
        -- two pieces: the query, and a count with blanks around it
        split at h
        · cases h
        · next n hvalue =>
          cases h
          obtain rfl := dropStart?_eq_some_iff.mp hstart
          obtain rfl := dropEnd?_eq_some_iff.mp hend
          obtain ⟨hnumeral, hbound⟩ := unsigned?_eq_some_iff.mp hvalue
          have hbound' : executions < UInt64.size := Nat.lt_of_le_pred (by decide) hbound
          exact .of_cuts (splitOn_separator_iff.mp hpieces) (padded_trim count) hnumeral hbound'
      · cases h

/-- The reader of fields takes the lines of the form, and reads its query and its count. -/
theorem readFields_eq_ok_iff {line query : List Char} {executions : Nat} :
    readFields line = .ok (query, executions) ↔ Form line query executions :=
  ⟨form_of_readFields, Form.readFields_eq⟩

/-! ## The line end -/

/-- Every text is a line with at most one carriage return taken off. -/
theorem exists_lineEnd (cs : List Char) :
    ∃ lineEnd, cs = dropReturn cs ++ lineEnd ∧ (lineEnd = [] ∨ lineEnd = ['\r']) := by
  unfold dropReturn
  split
  · next h =>
    obtain ⟨text, rfl⟩ := List.getLast?_eq_some_iff.mp h
    exact ⟨['\r'], by simp, .inr rfl⟩
  · exact ⟨[], by simp, .inl rfl⟩

/-- A line that does not end in a carriage return is found again behind a line end. -/
theorem dropReturn_append {text lineEnd : List Char} (h : text.getLast? ≠ some '\r')
    (hend : lineEnd = [] ∨ lineEnd = ['\r']) : dropReturn (text ++ lineEnd) = text := by
  rcases hend with rfl | rfl
  · rw [List.append_nil, dropReturn, if_neg h]
  · exact dropReturn_append_return text

/-- A line of the form ends in the closing word, and so in no carriage return. -/
theorem Form.getLast?_eq {line query : List Char} {executions : Nat}
    (h : Form line query executions) : line.getLast? = some 's' := by
  obtain ⟨body, count, numeral, any, rfl, -⟩ := h
  rw [List.getLast?_append]
  rfl

/-- The count of the form fits into 64 bits. -/
theorem Form.lt_size {line query : List Char} {executions : Nat}
    (h : Form line query executions) : executions < UInt64.size := by
  obtain ⟨body, count, numeral, any, -, -, -, -, hbound⟩ := h
  exact hbound

theorem Form.query_subset {line query : List Char} {executions : Nat}
    (h : Form line query executions) : query ⊆ line := by
  obtain ⟨body, count, numeral, any, rfl, hcuts, -⟩ := h
  intro c hc
  have hbody : c ∈ body := by
    rw [(cuts_pair_iff.mp hcuts).1.around]
    simp [hc]
  simp [hbody]

/-- The reader of lines adds the number and drops the line end, and has no other part. -/
theorem readLine_eq_ok_iff {n : Nat} {line : String} {entry : Entry} :
    readLine n line = .ok entry ↔
      entry.lineNumber = n ∧
        readFields (dropReturn line.toList) = .ok (entry.query.toList, entry.executions) := by
  unfold readLine
  dsimp only
  cases hfields : readFields (dropReturn line.toList) with
  | error reason => simp
  | ok fields =>
    obtain ⟨query, executions⟩ := fields
    rcases entry with ⟨m, q, k⟩
    simp only [Except.ok.injEq, Entry.mk.injEq, Prod.mk.injEq]
    rw [← String.toList_inj, String.toList_ofList, eq_comm]

/-- A line is an entry if and only if it has the form of one, with at most one carriage return
behind it; the entry has the number of the line, and the query and the count of the form. -/
theorem readLine_accepts_iff {n : Nat} {line : String} {entry : Entry} :
    readLine n line = .ok entry ↔
      entry.lineNumber = n ∧
        ∃ text lineEnd, line.toList = text ++ lineEnd ∧ (lineEnd = [] ∨ lineEnd = ['\r']) ∧
          Form text entry.query.toList entry.executions := by
  rw [readLine_eq_ok_iff, readFields_eq_ok_iff]
  constructor
  · -- what the reader drops is the line end
    rintro ⟨hnumber, hform⟩
    obtain ⟨lineEnd, hline, hend⟩ := exists_lineEnd line.toList
    exact ⟨hnumber, dropReturn line.toList, lineEnd, hline, hend, hform⟩
  · rintro ⟨hnumber, text, lineEnd, hline, hend, hform⟩
    have hlast : text.getLast? ≠ some '\r' := by
      -- the form does not end in a carriage return, so no more is dropped
      rw [hform.getLast?_eq]
      decide
    rw [hline, dropReturn_append hlast hend]
    exact ⟨hnumber, hform⟩

/-- The character before the closing word is dropped, be it a digit or another one. -/
example : readLine 7 "Query: q was executed +0427times\r" = .ok ⟨7, "q", 42⟩ := by
  rfl

end ScanAudit.Log
