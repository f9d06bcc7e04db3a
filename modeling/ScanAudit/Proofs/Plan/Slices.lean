import ScanAudit.Proofs.Plan.LetterCase
import ScanAudit.Proofs.Text.Slice

/-!
# Descriptions cut at byte offsets

The names of a description can be cut out of it in memory: a keyword is looked for in an upper-case
copy, and its offset, with the lengths of the keyword added, cuts the description itself. Upper case
changes no length and the keywords are found as a whole, so every cut is between two characters and
none is out of range. What is cut out are the texts of `readDetail`.

* `restBySlice`, `pastTableBySlice` — what follows a keyword
* `tableBySlices`, `indexBySlices`, `conditionBySlices` — the texts of a step
* `readDetailBySlices` — the step of a description
* `readDetailBySlices_eq` — no cut fails, and the step is the same
-/

namespace ScanAudit.Plan

open Text

/-- What follows the first occurrence of a keyword, without the blanks around it. -/
def restBySlice (keyword : String) (cs : List Char) : Except SliceFault (Option (List Char)) :=
  match offset? keyword.toList (upper cs) with
  | none => .ok none
  | some start =>
    (sliceFrom (start + byteSize keyword.toList) cs).map fun rest => some (trim rest)

/-- A text without the word `TABLE` and the space behind it, which are six bytes. -/
def pastTableBySlice (cs : List Char) : Except SliceFault (List Char) :=
  if "TABLE ".toList.isPrefixOf (upper cs) then (sliceFrom 6 cs).map trim else .ok cs

/-- The table behind a keyword, cut out of what follows it. -/
def tableBySlices (keyword : String) (cs : List Char) : Except SliceFault (Option String) := do
  match ← restBySlice keyword cs with
  | none => return none
  | some rest =>
    let word := firstWord (← pastTableBySlice rest)
    if upper word = "CONSTANT".toList ∨ upper word = "SUBQUERY".toList then return none
    else return nonEmpty? word

/-- The index behind a keyword, cut out of what follows it. -/
def indexBySlices (keyword : String) (cs : List Char) : Except SliceFault (Option String) := do
  match ← restBySlice keyword cs with
  | none => return none
  | some rest => return nonEmpty? ((firstWord rest).takeWhile (· != '('))

/-- What stands between the first `(` and the last `)`, if they come in that order. -/
def conditionBySlices (cs : List Char) : Except SliceFault (Option String) :=
  match offset? ['('] cs, lastOffset? ')' cs with
  | some first, some last =>
    if first < last then (slice (first + 1) last cs).map fun inside => some (String.ofList inside)
    else .ok none
  | _, _ => .ok none

/-- The step of a scan, with its texts cut out. -/
def scanStepBySlices (cs : List Char) : Except SliceFault Step := do
  let (kind, indexName) : Kind × Option String ←
    if mentions cs "USING COVERING INDEX" then
      (indexBySlices "COVERING INDEX" cs).map (.indexOnlyScan, ·)
    else if mentions cs "USING INDEX" then (indexBySlices "INDEX" cs).map (.indexScan, ·)
    else .ok (.seqScan, none)
  let relation ← tableBySlices "SCAN" cs
  let kind : Kind :=
    if mentions cs "CONSTANT ROW" then .valuesScan
    else if mentions cs "SUBQUERY" then .subqueryScan
    else kind
  return { kind, indexName, relation }

/-- The step of a lookup, with its texts cut out. -/
def searchStepBySlices (cs : List Char) : Except SliceFault Step := do
  let step : Step ←
    if mentions cs "AUTOMATIC" || mentions cs "AUTO-INDEX" then
      .ok { kind := .indexOnlyScan, indexName := some "AUTO-INDEX", extra := flag "auto_index" }
    else if mentions cs "USING COVERING INDEX" then
      (indexBySlices "COVERING INDEX" cs).map fun indexName => { kind := .indexOnlyScan, indexName }
    else if mentions cs "USING INDEX" then
      (indexBySlices "INDEX" cs).map fun indexName => { kind := .indexScan, indexName }
    else if mentions cs "PRIMARY KEY" || mentions cs "ROWID" then
      .ok { kind := .indexScan, indexName := some "PRIMARY KEY" }
    else .ok { kind := .indexScan }
  let relation ← tableBySlices "SEARCH" cs
  let indexCondition ← conditionBySlices cs
  return { step with relation, indexCondition }

/-- The step of a description in a given form. Only scans and searches have texts that are cut out
at offsets. -/
def Form.stepBySlices (cs : List Char) : Form → Except SliceFault Step
  | .scan => scanStepBySlices cs
  | .search => searchStepBySlices cs
  | form => .ok (form.step cs)

/-- The step of a description, with its texts cut out. -/
def readDetailBySlices (detail : String) : Except SliceFault Step :=
  let cs := trim detail.toList
  ((Form.ofDetail cs).stepBySlices cs).map fun step =>
    { step with description := some (String.ofList cs) }

/-! ## What follows a keyword -/

/-- The cut behind a keyword does not fail: the keyword has as many bytes in the description as in
the copy, and what is in front of it too. -/
theorem restBySlice_eq (keyword : String) (cs : List Char) :
    restBySlice keyword cs = .ok ((Keyword.after? keyword.toList cs).map trim) := by
  unfold restBySlice
  -- the keyword occurs in the copy if it occurs in the description
  split
  · next h =>
    rw [after?_of_offset?_upper_eq_none h]
    rfl
  · next start h =>
    obtain ⟨front, found, rest, rfl, rfl, hfound, hafter⟩ := exists_of_offset?_upper h
    have hcut : sliceFrom (byteSize front + byteSize keyword.toList) (front ++ (found ++ rest)) =
        .ok rest := by
      rw [← hfound, ← byteSize_append, ← List.append_assoc]
      exact sliceFrom_byteSize (front ++ found) rest
    rw [hcut, hafter]
    rfl

/-- Six bytes are the six characters of the word and the space, in either letter case. The cut takes
the blanks around the rest off as well, which changes no word of it. -/
theorem pastTableBySlice_eq (cs : List Char) :
    ∃ rest, pastTableBySlice cs = .ok rest ∧ firstWord rest = firstWord (pastTable cs) := by
  unfold pastTableBySlice pastTable
  rw [Keyword.startsWith_eq_isPrefixOf_upper]
  split
  · next h =>
    have hsize : byteSize (cs.take 6) = 6 := byteSize_take_of_isPrefixOf h
    have hcut := sliceFrom_byteSize (cs.take 6) (cs.drop 6)
    rw [hsize, List.take_append_drop] at hcut
    rw [hcut]
    exact ⟨_, rfl, firstWord_trim _⟩
  · exact ⟨cs, rfl, rfl⟩

/-! ## The texts of a step -/

/-- In a description that begins with its keyword and has no blanks at its end, what follows is the
rest of the description without the blanks in front. -/
theorem restBySlice_of_startsWith {keyword : String} {cs : List Char} (hcs : trimEnd cs = cs)
    (hne : keyword.toList ≠ []) (h : Keyword.startsWith keyword.toList cs = true) :
    restBySlice keyword cs = .ok (some (dropBlanks (cs.drop keyword.length))) := by
  have hafter : Keyword.after? keyword.toList cs = some (cs.drop keyword.length) := by
    -- the keyword is at the very beginning, so the first occurrence is there
    cases cs with
    | nil => rw [Keyword.startsWith_nil hne] at h; cases h
    | cons c cs => rw [Keyword.after?, if_pos h, String.length_toList]
  rw [restBySlice_eq, hafter, Option.map_some, trim_of_suffix hcs (List.drop_suffix _ _)]

theorem tableBySlices_eq {keyword : String} {cs : List Char} (hcs : trimEnd cs = cs)
    (hne : keyword.toList ≠ []) (h : Keyword.startsWith keyword.toList cs = true) :
    tableBySlices keyword cs = .ok (tableAfter? keyword cs) := by
  obtain ⟨rest, hrest, hword⟩ := pastTableBySlice_eq (dropBlanks (cs.drop keyword.length))
  have hsame : firstWord rest = tableWord keyword cs := hword
  simp only [tableBySlices, restBySlice_of_startsWith hcs hne h, bind, Except.bind, hrest, hsame,
    tableAfter?_eq_ite]
  split <;> rfl

theorem indexBySlices_eq (keyword : String) (cs : List Char) :
    indexBySlices keyword cs = .ok (indexAfter? keyword cs) := by
  rw [indexBySlices, restBySlice_eq, indexAfter?]
  cases Keyword.after? keyword.toList cs with
  | none => rfl
  | some rest =>
    show Except.ok (nonEmpty? ((firstWord (trim rest)).takeWhile (· != '('))) = _
    rw [firstWord_trim]
    rfl

/-- Three cases: no first parenthesis, none of the other kind behind it, and one that is the last of
the whole description. -/
theorem conditionBySlices_eq (cs : List Char) : conditionBySlices cs = .ok (condition? cs) := by
  by_cases hfirst : '(' ∈ cs
  · obtain ⟨before, after, rfl, hbefore⟩ := List.eq_append_cons_of_mem hfirst
    have hcondition : condition? (before ++ '(' :: after) =
        (beforeLast? ')' after).map String.ofList := by
      rw [condition?, betweenOuter?_append_cons hbefore]
    rw [conditionBySlices, offset?_append_cons hbefore, hcondition]
    by_cases hlast : ')' ∈ after
    · obtain ⟨inside, rest, rfl, hrest⟩ := exists_append_last hlast
      have hopen : byteSize (before ++ ['(']) = byteSize before + 1 := byteSize_append _ _
      have hoffset : lastOffset? ')' (before ++ '(' :: (inside ++ ')' :: rest)) =
          some (byteSize (before ++ '(' :: inside)) := by
        rw [← List.cons_append, ← List.append_assoc]
        exact lastOffset?_append_cons hrest _
      have hlt : byteSize before < byteSize (before ++ '(' :: inside) := by
        rw [List.append_cons, byteSize_append, hopen]
        omega
      have hcut : slice (byteSize before + 1) (byteSize (before ++ '(' :: inside))
          (before ++ '(' :: (inside ++ ')' :: rest)) = .ok inside := by
        have hpart := slice_byteSize (before ++ ['(']) inside (')' :: rest)
        rw [hopen] at hpart
        simpa only [List.append_assoc, List.cons_append, List.nil_append] using hpart
      rw [hoffset, beforeLast?_append hrest]
      dsimp only
      rw [if_pos hlt, hcut]
      rfl
    · have hopen : ')' ∉ '(' :: after := by simpa using hlast
      rw [beforeLast?_of_not_mem hlast, lastOffset?_append_of_not_mem hopen]
      cases hoffset : lastOffset? ')' before with
      | none => rfl
      | some last =>
        have hnot : ¬byteSize before < last := Nat.not_lt_of_gt (lastOffset?_lt hoffset)
        exact if_neg hnot
  · have hcondition : condition? cs = none := by
      rw [condition?, betweenOuter?, List.dropWhile_eq_nil_iff.mpr (bne_of_not_mem hfirst)]
      rfl
    rw [conditionBySlices, offset?_of_not_mem hfirst, hcondition]

/-! ## The step of a description -/

theorem scanStepBySlices_eq {cs : List Char} (hcs : trimEnd cs = cs)
    (h : Keyword.startsWith "SCAN".toList cs = true) : scanStepBySlices cs = .ok (scanStep cs) := by
  have htable : tableBySlices "SCAN" cs = .ok (tableAfter? "SCAN" cs) :=
    tableBySlices_eq hcs (by decide) h
  unfold scanStepBySlices scanStep
  rw [htable, indexBySlices_eq, indexBySlices_eq]
  cases mentions cs "USING COVERING INDEX" with
  | true => rfl
  | false => cases mentions cs "USING INDEX" <;> rfl

theorem searchStepBySlices_eq {cs : List Char} (hcs : trimEnd cs = cs)
    (h : Keyword.startsWith "SEARCH".toList cs = true) :
    searchStepBySlices cs = .ok (searchStep cs) := by
  have htable : tableBySlices "SEARCH" cs = .ok (tableAfter? "SEARCH" cs) :=
    tableBySlices_eq hcs (by decide) h
  unfold searchStepBySlices searchStep
  rw [htable, indexBySlices_eq, indexBySlices_eq, conditionBySlices_eq]
  -- the words on indexes are tried in the same order on both sides
  split
  · rfl
  split
  · rfl
  split
  · rfl
  split
  · rfl
  · rfl

/-- A description of a form begins with one of the keywords of the form. -/
theorem exists_keyword_of_ofDetail {cs : List Char} {form : Form} (h : Form.ofDetail cs = form)
    (hform : form ≠ .other) :
    ∃ keyword, (keyword, form) ∈ Form.keywords ∧
      Keyword.startsWith keyword.toList cs = true := by
  unfold Form.ofDetail at h
  split at h
  · next keyword found hfound =>
    subst h
    have hstart : Keyword.startsWith keyword.toList cs = true := by
      simpa using List.find?_some hfound
    exact ⟨keyword, List.mem_of_find?_eq_some hfound, hstart⟩
  · exact absurd h.symm hform

/-- Only a description that begins with `SCAN` is a scan. -/
theorem startsWith_of_ofDetail_eq_scan {cs : List Char} (h : Form.ofDetail cs = .scan) :
    Keyword.startsWith "SCAN".toList cs = true := by
  obtain ⟨keyword, hmem, hstart⟩ := exists_keyword_of_ofDetail h (by decide)
  obtain rfl : keyword = "SCAN" := by
    simpa [Form.keywords] using hmem
  exact hstart

theorem startsWith_of_ofDetail_eq_search {cs : List Char} (h : Form.ofDetail cs = .search) :
    Keyword.startsWith "SEARCH".toList cs = true := by
  obtain ⟨keyword, hmem, hstart⟩ := exists_keyword_of_ofDetail h (by decide)
  obtain rfl : keyword = "SEARCH" := by
    simpa [Form.keywords] using hmem
  exact hstart

/-- The step of a description in its form is the same when its texts are cut out. -/
theorem stepBySlices_eq {cs : List Char} (hcs : trimEnd cs = cs) :
    (Form.ofDetail cs).stepBySlices cs = .ok ((Form.ofDetail cs).step cs) := by
  -- only the first two forms have texts that are cut out
  cases hform : Form.ofDetail cs with
  | scan => exact scanStepBySlices_eq hcs (startsWith_of_ofDetail_eq_scan hform)
  | search => exact searchStepBySlices_eq hcs (startsWith_of_ofDetail_eq_search hform)
  | _ => rfl

/-- No cut fails, and the texts that are cut out make the step of the description. -/
theorem readDetailBySlices_eq (detail : String) :
    readDetailBySlices detail = .ok (readDetail detail) := by
  rw [readDetailBySlices, stepBySlices_eq (trimEnd_trim detail.toList), readDetail]
  rfl

end ScanAudit.Plan
