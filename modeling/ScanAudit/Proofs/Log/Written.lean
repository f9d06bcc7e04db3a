import ScanAudit.Log.Items
import ScanAudit.Proofs.Log.Grammar
import ScanAudit.Proofs.Text.Lines

/-!
# Written logs read back

The application writes a line for each query and count. Such a line is read back unless its query
runs into the separator: the separator begins and ends with a space, so a query that ends in all
of it but the last space makes an occurrence with the space that belongs to the real separator.

* `Collides` — the separator occurs in a query with one space behind it
* `firstCut_written` — the real separator is the first one unless the query collides
* `readLine_writeLine_iff`, `readLine_writeLine_of_collides` — one written line
* `readLine_rewritten` — a line that is read, written again
* `items_write` — a written log
-/

namespace ScanAudit.Log

open Text Text.Decimal

/-- The separator occurs in the query with the space that follows it in a written line. -/
def Collides (query : String) : Prop :=
  " was executed ".toList <:+: query.toList ++ [' ']

instance (query : String) : Decidable (Collides query) :=
  decidable_of_iff _ contains_iff

/-- The space completes an occurrence only if all before it ends the query. -/
theorem collides_iff {query : String} :
    Collides query ↔
      " was executed ".toList <:+: query.toList ∨ " was executed".toList <:+ query.toList := by
  unfold Collides
  constructor
  · rintro ⟨b, a, hba⟩
    rcases List.eq_nil_or_concat a with rfl | ⟨a, c, rfl⟩
    · right
      refine ⟨b, ?_⟩
      have hends : (b ++ " was executed".toList) ++ [' '] = query.toList ++ [' '] := by
        rw [← hba]
        simp
      exact List.append_cancel_right hends
    · left
      refine ⟨b, a, ?_⟩
      have hends : (b ++ " was executed ".toList ++ a) ++ [c] = query.toList ++ [' '] := by
        rw [← hba]
        simp
      exact (List.append_inj' hends rfl).1
  · rintro (h | ⟨b, hb⟩)
    · exact h.trans (List.infix_append_left)
    · exact ⟨b, [], by rw [← hb]; simp⟩

/-! ## The separator of a written line -/

/-- A written line, cut behind the first space of its separator. -/
theorem append_separator_append (query rest : List Char) :
    query ++ " was executed ".toList ++ rest =
      (query ++ [' ']) ++ ("was executed ".toList ++ rest) := by
  simp

/-- An occurrence that ends with the first space of the real separator, or before it, lies in the
query and this space. -/
theorem collides_of_early {query : String} {rest b a : List Char}
    (h : query.toList ++ " was executed ".toList ++ rest = b ++ " was executed ".toList ++ a)
    (hends : b.length + 14 ≤ query.toList.length + 1) : Collides query := by
  have hprefix : b ++ " was executed ".toList <+: query.toList ++ [' '] := by
    refine List.prefix_of_prefix_length_le ⟨a, h.symm⟩
      ⟨_, (append_separator_append query.toList rest).symm⟩ ?_
    simpa using hends
  obtain ⟨a', ha'⟩ := hprefix
  exact ⟨b, a', ha'⟩

/-- By a test of all thirteen ends. -/
theorem not_separator_drop_isPrefix :
    ∀ k < 13, 0 < k → ¬" was executed ".toList.drop k <+: " was executed ".toList := by
  decide

/-- Two occurrences of the separator overlap in one space or not at all: none of its beginnings but
the first space is one of its ends. -/
theorem not_overlap {b rest a : List Char} (hpos : 0 < b.length) (hlt : b.length < 13) :
    b ++ (" was executed ".toList ++ rest) ≠ " was executed ".toList ++ a := by
  intro hoverlap
  have hshared : " was executed ".toList.drop b.length ++ a = " was executed ".toList ++ rest := by
    -- what both share is an end of the one and a beginning of the other
    have hdrop := congrArg (List.drop b.length) hoverlap
    have hwithin : b.length ≤ " was executed ".toList.length := by
      show b.length ≤ 14
      omega
    rw [List.drop_left, List.drop_append_of_le_length hwithin] at hdrop
    exact hdrop.symm
  apply not_separator_drop_isPrefix b.length hlt hpos
  apply List.prefix_of_prefix_length_le ⟨a, hshared⟩ ⟨rest, rfl⟩
  rw [List.length_drop]
  exact Nat.sub_le _ _

/-- An occurrence in front of the real separator would end before it, overlap it in its first
space, or overlap it in more: the first two make the query collide, the third cannot be. -/
theorem firstCut_written {query : String} (h : ¬Collides query) (rest : List Char) :
    FirstCut " was executed ".toList (query.toList ++ " was executed ".toList ++ rest)
      query.toList rest := by
  refine ⟨rfl, fun b a hba => Nat.not_lt.mp fun hlt => ?_⟩
  have hlate : ¬b.length + 14 ≤ query.toList.length + 1 :=
    fun hends => h (collides_of_early hba hends)
  -- the query goes on behind the front of the occurrence, for less than a separator
  have hboth : query.toList ++ (" was executed ".toList ++ rest) =
      b ++ (" was executed ".toList ++ a) := by
    rw [← List.append_assoc, hba, List.append_assoc]
  obtain ⟨b', hquery⟩ : b <+: query.toList :=
    List.prefix_of_prefix_length_le ⟨_, hboth.symm⟩ ⟨_, rfl⟩ (Nat.le_of_lt hlt)
  have hlength : query.toList.length = b.length + b'.length := by
    rw [← hquery, List.length_append]
  have hoverlap : b' ++ (" was executed ".toList ++ rest) = " was executed ".toList ++ a := by
    -- so the occurrence begins inside the query, and overlaps the real separator
    rw [← hquery, List.append_assoc] at hboth
    exact List.append_cancel_left hboth
  exact not_overlap (by omega) (by omega) hoverlap

/-- A colliding query makes an occurrence in front of the real separator. All of the real one but
its first space stands behind that occurrence. -/
theorem exists_early_of_collides {query : String} (h : Collides query) (rest : List Char) :
    ∃ b a, query.toList ++ " was executed ".toList ++ rest =
        b ++ " was executed ".toList ++ (a ++ ("was executed ".toList ++ rest)) ∧
      b.length < query.toList.length := by
  obtain ⟨b, a, hba⟩ := h
  refine ⟨b, a, ?_, ?_⟩
  · rw [append_separator_append, ← hba, List.append_assoc _ a]
  · have hlength := congrArg List.length hba
    simp only [List.length_append, List.length_singleton] at hlength
    have hlong : " was executed ".toList.length = 14 := rfl
    omega

/-- A cut of a written line whose query collides comes too early, and leaves the last word of the
real separator to the count. -/
theorem mem_of_firstCut_of_collides {query : String} (h : Collides query)
    {rest before after : List Char}
    (hcut : FirstCut " was executed ".toList (query.toList ++ " was executed ".toList ++ rest)
      before after) : 'w' ∈ after := by
  obtain ⟨b, a, hspace, -⟩ := exists_early_of_collides h rest
  have hearly : before.length ≤ b.length := hcut.first b _ hspace
  have hsuffix : a ++ ("was executed ".toList ++ rest) <:+ after := by
    -- what the cut leaves reaches back over the real separator
    refine List.suffix_of_suffix_length_le ⟨_, hspace.symm⟩ ⟨_, hcut.around.symm⟩ ?_
    have hlength := congrArg List.length (hcut.around.symm.trans hspace)
    simp only [List.length_append] at hlength ⊢
    omega
  exact hsuffix.subset (by simp)

/-! ## One written line -/

/-- A written line, with the space before its closing word as the character that the reader drops.
-/
theorem toList_writeLine (query : String) (executions : Nat) :
    (writeLine query executions).toList =
      "Query: ".toList ++ (query.toList ++ " was executed ".toList ++ ofNat executions) ++ [' '] ++
        "times".toList := by
  simp [writeLine, opening, separator, closing]

theorem not_blank_of_mem_ofNat {n : Nat} {c : Char} (h : c ∈ ofNat n) : c ≠ ' ' := by
  rintro rfl
  exact absurd (isDigit_of_mem_ofNat h) (by decide)

/-- A written line whose query does not collide has the form of an entry: it is cut behind its
query, and no further, as a number holds no separator. -/
theorem form_writeLine {query : String} {executions : Nat} (hbound : executions < UInt64.size)
    (h : ¬Collides query) : Form (writeLine query executions).toList query.toList executions := by
  have hdigits : ¬" was executed ".toList <:+: ofNat executions := by
    -- the separator has spaces, and a number has none
    intro hinfix
    have hmem : ' ' ∈ ofNat executions := hinfix.subset (by decide)
    exact not_blank_of_mem_ofNat hmem rfl
  have hcuts := cuts_pair_iff.mpr ⟨firstCut_written h (ofNat executions), hdigits⟩
  have hpadded : Padded (ofNat executions) (ofNat executions) :=
    ⟨[], [], by simp, by simp, by simp⟩
  exact .intro _ _ _ ' ' (toList_writeLine query executions) hcuts hpadded
    (numeral_ofNat executions) hbound

/-- The count behind an early cut holds a letter, and so is none. -/
theorem not_form_writeLine {query q : String} {executions n : Nat} (h : Collides query) :
    ¬Form (writeLine query executions).toList q.toList n := by
  rintro ⟨body, count, numeral, any, hline, hcuts, ⟨left, right, rfl, hleft, hright⟩, hnumeral, -⟩
  have hbody : query.toList ++ " was executed ".toList ++ ofNat executions = body := by
    -- the last character that the reader drops is the space
    rw [toList_writeLine] at hline
    have hshort := List.append_cancel_right hline
    rw [List.append_assoc, List.append_assoc _ body] at hshort
    exact (List.append_inj' (List.append_cancel_left hshort) rfl).1
  have hcut := (cuts_pair_iff.mp hcuts).1
  rw [← hbody] at hcut
  -- the letter is in the blanks before the count, in the numeral, or in the blanks behind it
  have hmem := mem_of_firstCut_of_collides h hcut
  rcases List.mem_append.mp hmem with hmem | hmem
  · rcases List.mem_append.mp hmem with hmem | hmem
    · exact absurd (hleft 'w' hmem) (by decide)
    · exact absurd (hnumeral.isDigit_or_plus hmem) (by decide)
  · exact absurd (hright 'w' hmem) (by decide)

/-- A written line has no line end to drop. -/
theorem dropReturn_writeLine (query : String) (executions : Nat) :
    dropReturn (writeLine query executions).toList = (writeLine query executions).toList := by
  have hlast : (writeLine query executions).toList.getLast? = some 's' := by
    rw [toList_writeLine, List.getLast?_append]
    rfl
  rw [dropReturn, hlast, if_neg (by decide)]

/-- So a query is read back from its line if and only if it does not collide. -/
theorem readLine_writeLine_iff {n : Nat} {query : String} {executions : Nat}
    (hbound : executions < UInt64.size) :
    readLine n (writeLine query executions) = .ok ⟨n, query, executions⟩ ↔ ¬Collides query := by
  rw [readLine_eq_ok_iff, dropReturn_writeLine, readFields_eq_ok_iff]
  constructor
  · rintro ⟨-, hform⟩ hcollides
    exact not_form_writeLine hcollides hform
  · intro h
    exact ⟨rfl, form_writeLine hbound h⟩

/-- A line with a colliding query is refused, whatever its number and count are. -/
theorem readLine_writeLine_of_collides {query : String} (h : Collides query) (n executions : Nat) :
    ∃ reason, readLine n (writeLine query executions) =
      .error ⟨n, writeLine query executions, reason⟩ := by
  cases hfields : readFields (writeLine query executions).toList with
  | ok fields =>
    obtain ⟨q, m⟩ := fields
    rw [← String.toList_ofList (l := q), readFields_eq_ok_iff] at hfields
    exact absurd hfields (not_form_writeLine h)
  | error reason =>
    refine ⟨reason, ?_⟩
    rw [readLine, dropReturn_writeLine, hfields, String.ofList_toList]

/-! ## A line written again

Whatever stands in a line besides its query and its count, a line that is read holds a query that
does not collide: the line was cut behind it, at the first occurrence of the separator. -/

/-- An occurrence of the separator in the query and the space behind it would be the first one of
the line, and the line would be cut there. -/
theorem Form.not_collides {line : List Char} {query : String} {executions : Nat}
    (h : Form line query.toList executions) : ¬Collides query := by
  obtain ⟨body, count, numeral, any, -, hcuts, -⟩ := h
  have hcut := (cuts_pair_iff.mp hcuts).1
  intro hcollides
  obtain ⟨b, a, hearly, hlt⟩ := exists_early_of_collides hcollides count
  have hfirst : query.toList.length ≤ b.length := hcut.first b _ (hcut.around.trans hearly)
  exact absurd hlt (Nat.not_lt.mpr hfirst)

/-- The line written for the query and the count of an entry is read as that entry, and no other
written line is. -/
theorem readLine_rewritten {n : Nat} {line : String} {entry : Entry}
    (h : readLine n line = .ok entry) :
    readLine n (writeLine entry.query entry.executions) = .ok entry ∧
      ∀ query executions, executions < UInt64.size →
        readLine n (writeLine query executions) = .ok entry →
        writeLine query executions = writeLine entry.query entry.executions := by
  obtain ⟨hnumber, hfields⟩ := readLine_eq_ok_iff.mp h
  have hform := readFields_eq_ok_iff.mp hfields
  constructor
  · rw [(readLine_writeLine_iff hform.lt_size).mpr hform.not_collides, ← hnumber]
  · intro query executions hbound hread
    -- a written line with a colliding query is refused, so this one has another
    have hclean : ¬Collides query := by
      intro hcollides
      obtain ⟨reason, hrefused⟩ := readLine_writeLine_of_collides hcollides n executions
      rw [hrefused] at hread
      cases hread
    rw [(readLine_writeLine_iff hbound).mpr hclean] at hread
    cases hread
    rfl

/-- The query is all of the separator but its first space, and the count has a sign, zeros and a
blank at each end. -/
theorem readLine_rewritten_padded :
    readLine 7 "Query: was executed  was executed  +0042 \ttimes\r" =
        .ok ⟨7, "was executed ", 42⟩ ∧
      readLine 7 "Query: was executed  was executed 42 times" = .ok ⟨7, "was executed ", 42⟩ := by
  have hread : readLine 7 "Query: was executed  was executed  +0042 \ttimes\r" =
      .ok ⟨7, "was executed ", 42⟩ := rfl
  exact ⟨hread, (readLine_rewritten hread).1⟩

/-! ## A written log -/

theorem toList_write (records : List (String × Nat)) :
    (write records).toList = (records.map fun r => (writeLine r.1 r.2).toList).flatMap
      (· ++ ['\n']) := by
  simp [write, String.toList_join, List.flatMap_map]

theorem newline_not_mem_writeLine {query : String} (h : '\n' ∉ query.toList) (executions : Nat) :
    '\n' ∉ (writeLine query executions).toList := by
  have hdigits : '\n' ∉ ofNat executions :=
    fun hmem => absurd (isDigit_of_mem_ofNat hmem) (by decide)
  rw [toList_writeLine]
  simp [h, hdigits]

theorem lines_write {records : List (String × Nat)} (h : ∀ r ∈ records, '\n' ∉ r.1.toList) :
    lines (write records).toList = records.map fun r => (writeLine r.1 r.2).toList := by
  rw [toList_write, lines_flatMap, List.map_map]
  · exact List.map_congr_left fun r _ => dropReturn_writeLine r.1 r.2
  · -- no written line has a line feed inside
    intro line hline
    obtain ⟨r, hr, rfl⟩ := List.mem_map.mp hline
    exact newline_not_mem_writeLine (h r hr) r.2

/-- No written line is blank, so each of them is an item. -/
theorem items_write_eq {records : List (String × Nat)} (h : ∀ r ∈ records, '\n' ∉ r.1.toList) :
    items (write records) =
      (records.zipIdx 1).map fun r => readLine r.2 (writeLine r.1.1 r.1.2) := by
  have hnumbered : numberedLines (write records) =
      (records.map fun r => (writeLine r.1 r.2).toList).zipIdx 1 := by
    rw [numberedLines, lines_write h, List.filter_eq_self]
    intro l hl
    obtain ⟨r, -, hr⟩ := List.mem_map.mp (List.fst_mem_of_mem_zipIdx hl)
    rw [← hr, toList_writeLine]
    rfl
  rw [items, hnumbered, List.zipIdx_map, List.map_map]
  simp [Function.comp_def]

/-- A written log has one item for each query and count, in order, with the numbers from 1 on. The
item is that query with that count if and only if the query does not collide; else it is a line
that is no entry, whatever the other lines are. -/
theorem items_write {records : List (String × Nat)} (hcounts : ∀ r ∈ records, r.2 < UInt64.size)
    (hqueries : ∀ r ∈ records, '\n' ∉ r.1.toList) :
    (items (write records)).length = records.length ∧
      ∀ (i : Nat) (query : String) (executions : Nat), records[i]? = some (query, executions) →
        ((items (write records))[i]? = some (.ok ⟨i + 1, query, executions⟩) ↔
          ¬Collides query) ∧
        (Collides query → ∃ reason, (items (write records))[i]? =
          some (.error ⟨i + 1, writeLine query executions, reason⟩)) ∧
        (Collides query ↔ " was executed ".toList <:+: query.toList ∨
          " was executed".toList <:+ query.toList) := by
  have hitems := items_write_eq hqueries
  constructor
  · rw [hitems, List.length_map, List.length_zipIdx]
  · intro i query executions hrecord
    have hbound : executions < UInt64.size := hcounts _ (List.mem_of_getElem? hrecord)
    have hitem : (items (write records))[i]? =
        some (readLine (i + 1) (writeLine query executions)) := by
      rw [hitems, List.getElem?_map, List.getElem?_zipIdx, hrecord, Nat.add_comm]
      rfl
    refine ⟨?_, ?_, collides_iff⟩
    · rw [hitem, Option.some.injEq]
      exact readLine_writeLine_iff hbound
    · -- a refused line is an item too
      intro hcollides
      obtain ⟨reason, hreason⟩ := readLine_writeLine_of_collides hcollides (i + 1) executions
      exact ⟨reason, by rw [hitem, hreason]⟩

/-- The second query ends in all of the separator but its last space. -/
def sampleRecords : List (String × Nat) :=
  [("SELECT '\r'", 18446744073709551615), ("x was executed", 3), ("", 0)]

/-- The first query holds a carriage return, and its count is the largest. -/
theorem items_write_sample :
    (items (write sampleRecords)).length = 3 ∧
      (items (write sampleRecords))[0]? =
        some (.ok ⟨1, "SELECT '\r'", 18446744073709551615⟩) ∧
      (∃ reason, (items (write sampleRecords))[1]? =
        some (.error ⟨2, "Query: x was executed was executed 3 times", reason⟩)) ∧
      (items (write sampleRecords))[2]? = some (.ok ⟨3, "", 0⟩) := by
  have hcounts : ∀ r ∈ sampleRecords, r.2 < UInt64.size := by decide
  have hqueries : ∀ r ∈ sampleRecords, '\n' ∉ r.1.toList := by decide
  obtain ⟨hlength, hitem⟩ := items_write hcounts hqueries
  refine ⟨hlength, ?_, ?_, ?_⟩
  · exact (hitem 0 _ _ rfl).1.mpr (by decide)
  · exact (hitem 1 "x was executed" 3 rfl).2.1 (by decide)
  · exact (hitem 2 _ _ rfl).1.mpr (by decide)

end ScanAudit.Log
