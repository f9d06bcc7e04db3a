import ScanAudit.Proofs.Plan.LetterCase
import ScanAudit.Proofs.Text.Word

/-!
# The word `TABLE` in a description

Older databases write `SCAN TABLE t` for `SCAN t`, and `SEARCH TABLE t` for `SEARCH t`. No keyword
of an index or of a kind can begin in these openings, whatever follows them. So all of them are
found in the rest alone, which is the same in both spellings; the name of the table is the first
word of the rest.

* `scanStep_append`, `searchStep_append` — the step of an opening with a rest
* `tableWord_opening`, `tableWord_tableOpening` — the name of the table in the two spellings
* `undescribed_scan`, `undescribed_search` — the step of a description with such an opening
* `readDetail_tableWord` — the two spellings agree
-/

namespace ScanAudit.Plan

open Text

/-! ## Openings that hold no keyword -/

/-- No keyword of a list can begin in an opening. -/
def HoldsNone (keywords : List String) (opening : List Char) : Prop :=
  ∀ keyword ∈ keywords, Keyword.apart keyword.toList opening = true

instance (keywords : List String) (opening : List Char) :
    Decidable (HoldsNone keywords opening) :=
  inferInstanceAs (Decidable (∀ _ ∈ _, _))

section Openings

variable {keywords : List String} {opening : List Char}

/-- A keyword is found behind the opening or not at all. -/
theorem HoldsNone.mentions_append (h : HoldsNone keywords opening) {keyword : String}
    (hmem : keyword ∈ keywords) (rest : List Char) :
    mentions (opening ++ rest) keyword = mentions rest keyword :=
  Keyword.occurs_append_of_apart (h keyword hmem) rest

/-- The name of an index is read behind the opening. -/
theorem HoldsNone.indexAfter?_append (h : HoldsNone keywords opening) {keyword : String}
    (hmem : keyword ∈ keywords) (rest : List Char) :
    indexAfter? keyword (opening ++ rest) = indexAfter? keyword rest := by
  rw [indexAfter?, Keyword.after?_append_of_apart (h keyword hmem), indexAfter?]

end Openings

/-- The keywords that are looked for in the description of a scan. -/
def scanKeywords : List String :=
  ["USING COVERING INDEX", "COVERING INDEX", "USING INDEX", "INDEX", "CONSTANT ROW", "SUBQUERY"]

/-- The keywords that are looked for in the description of a search. -/
def searchKeywords : List String :=
  ["AUTOMATIC", "AUTO-INDEX", "USING COVERING INDEX", "COVERING INDEX", "USING INDEX", "INDEX",
   "PRIMARY KEY", "ROWID"]

/-- All that the step of a scan has but its table comes from the rest. -/
theorem scanStep_append {opening : List Char} (h : HoldsNone scanKeywords opening)
    (rest : List Char) :
    scanStep (opening ++ rest) =
      { scanStep rest with relation := tableAfter? "SCAN" (opening ++ rest) } := by
  have hmentions (keyword : String) (hmem : keyword ∈ scanKeywords) :=
    h.mentions_append hmem rest
  have hcovering : indexAfter? "COVERING INDEX" (opening ++ rest) =
      indexAfter? "COVERING INDEX" rest :=
    h.indexAfter?_append (by decide) rest
  have hindex : indexAfter? "INDEX" (opening ++ rest) = indexAfter? "INDEX" rest :=
    h.indexAfter?_append (by decide) rest
  rw [scanStep, hmentions "USING COVERING INDEX" (by decide), hmentions "USING INDEX" (by decide),
    hmentions "CONSTANT ROW" (by decide), hmentions "SUBQUERY" (by decide), hcovering, hindex,
    scanStep]

/-- All that the step of a lookup has but its table comes from the rest. The opening must not have a
parenthesis, as the condition begins with the first one. -/
theorem searchStep_append {opening : List Char} (h : HoldsNone searchKeywords opening)
    (hparenthesis : '(' ∉ opening) (rest : List Char) :
    searchStep (opening ++ rest) =
      { searchStep rest with relation := tableAfter? "SEARCH" (opening ++ rest) } := by
  have hmentions (keyword : String) (hmem : keyword ∈ searchKeywords) :=
    h.mentions_append hmem rest
  have hcovering : indexAfter? "COVERING INDEX" (opening ++ rest) =
      indexAfter? "COVERING INDEX" rest :=
    h.indexAfter?_append (by decide) rest
  have hindex : indexAfter? "INDEX" (opening ++ rest) = indexAfter? "INDEX" rest :=
    h.indexAfter?_append (by decide) rest
  have hcondition : condition? (opening ++ rest) = condition? rest := by
    rw [condition?, betweenOuter?_append_left hparenthesis, condition?]
  rw [searchStep, hmentions "AUTOMATIC" (by decide), hmentions "AUTO-INDEX" (by decide),
    hmentions "USING COVERING INDEX" (by decide), hmentions "USING INDEX" (by decide),
    hmentions "PRIMARY KEY" (by decide), hmentions "ROWID" (by decide), hcovering, hindex,
    hcondition, searchStep]
  -- the relation is the same in every branch, and nothing else mentions the opening
  split
  · rfl
  split
  · rfl
  split
  · rfl
  split
  · rfl
  · rfl

/-! ## The table in the two spellings -/

section Names

variable {rest : List Char}

/-- Nothing is passed over in a text that does not begin with `TABLE` and a space. -/
theorem pastTable_eq_self (h : ¬"TABLE ".toList <+: upper rest) : pastTable rest = rest := by
  have hstart : Keyword.startsWith "TABLE ".toList rest = false := by
    rw [Keyword.startsWith_eq_isPrefixOf_upper, Bool.eq_false_iff]
    intro hprefix
    exact h (List.isPrefixOf_iff_prefix.mp hprefix)
  rw [pastTable, hstart]
  rfl

theorem firstWord_dropBlanks (cs : List Char) : firstWord (dropBlanks cs) = firstWord cs := by
  have hidempotent : dropBlanks (dropBlanks cs) = dropBlanks cs := List.dropWhile_idempotent _ _
  rw [firstWord, hidempotent, firstWord]

/-- An opening of one word: the name of the table comes next. -/
theorem tableWord_opening (keyword : String) (h : ¬"TABLE ".toList <+: upper (dropBlanks rest)) :
    tableWord keyword (keyword.toList ++ ' ' :: rest) = firstWord rest := by
  have hdrop : (keyword.toList ++ ' ' :: rest).drop keyword.length = ' ' :: rest := by
    rw [← String.length_toList, List.drop_left]
  have hspace : dropBlanks (' ' :: rest) = dropBlanks rest :=
    List.dropWhile_cons_of_pos isBlank_space
  rw [tableWord, hdrop, hspace, pastTable_eq_self h, firstWord_dropBlanks]

/-- An opening of two words: the second of them is passed over. -/
theorem tableWord_tableOpening (keyword : String) (rest : List Char) :
    tableWord keyword (keyword.toList ++ ' ' :: ("TABLE ".toList ++ rest)) = firstWord rest := by
  have hdrop : (keyword.toList ++ ' ' :: ("TABLE ".toList ++ rest)).drop keyword.length =
      ' ' :: ("TABLE ".toList ++ rest) := by
    rw [← String.length_toList, List.drop_left]
  have hspace : dropBlanks (' ' :: ("TABLE ".toList ++ rest)) = "TABLE ".toList ++ rest := rfl
  have hpast : pastTable ("TABLE ".toList ++ rest) = rest := rfl
  rw [tableWord, hdrop, hspace, hpast]

theorem tableAfter?_tableOpening (keyword : String)
    (h : ¬"TABLE ".toList <+: upper (dropBlanks rest)) :
    tableAfter? keyword (keyword.toList ++ ' ' :: ("TABLE ".toList ++ rest)) =
      tableAfter? keyword (keyword.toList ++ ' ' :: rest) := by
  rw [tableAfter?_eq_ite, tableWord_tableOpening, tableAfter?_eq_ite, tableWord_opening keyword h]

end Names

/-! ## The two spellings -/

/-- A step without its description. -/
def Step.undescribed (step : Step) : Step :=
  { step with description := none }

section Spellings

variable {opening x : String}

/-- The step of an opening of some words with a rest that is not blank, from which only the blanks
at the end are taken off. -/
theorem undescribed_readDetail {keyword : String} {middle : List Char}
    (hkeyword : IsWord keyword.toList) (hopening : opening.toList = keyword.toList ++ middle)
    {form : Form} (hform : ∀ rest, Form.ofDetail (keyword.toList ++ rest) = form)
    (hx : ∃ c ∈ x.toList, isBlank c = false) :
    (readDetail (opening ++ x)).undescribed =
      (form.step (opening.toList ++ trimEnd x.toList)).undescribed := by
  have htrim : trim (opening ++ x).toList = opening.toList ++ trimEnd x.toList := by
    rw [String.toList_append, hopening, List.append_assoc, List.append_assoc]
    exact trim_word_append hkeyword hx middle
  have hform' : Form.ofDetail (opening.toList ++ trimEnd x.toList) = form := by
    -- the form is told by the first keyword, which is in the opening
    rw [hopening, List.append_assoc]
    exact hform _
  rw [readDetail, htrim, hform']
  rfl

/-- The step of a scan with an opening, from the step of the rest. -/
theorem undescribed_scan {middle : List Char} (hopening : opening.toList = "SCAN".toList ++ middle)
    (hnone : HoldsNone scanKeywords opening.toList) (hx : ∃ c ∈ x.toList, isBlank c = false) :
    (readDetail (opening ++ x)).undescribed =
      { (scanStep (trimEnd x.toList)).undescribed with
        relation := tableAfter? "SCAN" (opening.toList ++ trimEnd x.toList) } := by
  have hscan : IsWord "SCAN".toList := by decide
  rw [undescribed_readDetail hscan hopening (fun _ => rfl) hx]
  show (scanStep (opening.toList ++ trimEnd x.toList)).undescribed = _
  rw [scanStep_append hnone]
  rfl

theorem undescribed_search {middle : List Char}
    (hopening : opening.toList = "SEARCH".toList ++ middle)
    (hnone : HoldsNone searchKeywords opening.toList) (hparenthesis : '(' ∉ opening.toList)
    (hx : ∃ c ∈ x.toList, isBlank c = false) :
    (readDetail (opening ++ x)).undescribed =
      { (searchStep (trimEnd x.toList)).undescribed with
        relation := tableAfter? "SEARCH" (opening.toList ++ trimEnd x.toList) } := by
  have hsearch : IsWord "SEARCH".toList := by decide
  rw [undescribed_readDetail hsearch hopening (fun _ => rfl) hx]
  show (searchStep (opening.toList ++ trimEnd x.toList)).undescribed = _
  rw [searchStep_append hnone hparenthesis]
  rfl

end Spellings

/-- A description that spells out the word `TABLE` has the step of the one without it, up to the
description itself. What follows the opening is any text that is not blank and does not begin with
one more `TABLE`. -/
theorem readDetail_tableWord {x : String} (hx : ∃ c ∈ x.toList, isBlank c = false)
    (hlegacy : ¬"TABLE ".toList <+: upper (dropBlanks x.toList)) :
    (readDetail ("SCAN TABLE " ++ x)).undescribed = (readDetail ("SCAN " ++ x)).undescribed ∧
      (readDetail ("SEARCH TABLE " ++ x)).undescribed =
        (readDetail ("SEARCH " ++ x)).undescribed := by
  have hrest : ¬"TABLE ".toList <+: upper (dropBlanks (trimEnd x.toList)) := by
    -- taking off the blanks at the end cannot make the rest begin with `TABLE`
    intro htable
    have hmore := dropBlanks_prefix (List.rdropWhile_prefix isBlank x.toList)
    exact hlegacy (htable.trans (hmore.map Char.toUpper))
  constructor
  · have htable : tableAfter? "SCAN" ("SCAN TABLE ".toList ++ trimEnd x.toList) =
        tableAfter? "SCAN" ("SCAN ".toList ++ trimEnd x.toList) :=
      tableAfter?_tableOpening "SCAN" hrest
    rw [undescribed_scan rfl (by decide) hx, undescribed_scan rfl (by decide) hx, htable]
  · have htable : tableAfter? "SEARCH" ("SEARCH TABLE ".toList ++ trimEnd x.toList) =
        tableAfter? "SEARCH" ("SEARCH ".toList ++ trimEnd x.toList) :=
      tableAfter?_tableOpening "SEARCH" hrest
    rw [undescribed_search rfl (by decide) (by decide) hx,
      undescribed_search rfl (by decide) (by decide) hx, htable]

/-- A rest with blanks around it and the names of a table and an index in it. -/
def indexedRest : String := "\t messages USING INDEX by_session (session_id=?) "

/-- The condition and the index of the lookup stand in the rest. -/
theorem readDetail_tableWord_indexedRest :
    (∃ c ∈ indexedRest.toList, isBlank c = false) ∧
      ¬"TABLE ".toList <+: upper (dropBlanks indexedRest.toList) ∧
      (readDetail ("SCAN TABLE " ++ indexedRest)).undescribed =
        (readDetail ("SCAN " ++ indexedRest)).undescribed ∧
      (readDetail ("SEARCH TABLE " ++ indexedRest)).undescribed =
        (readDetail ("SEARCH " ++ indexedRest)).undescribed := by
  have hx : ∃ c ∈ indexedRest.toList, isBlank c = false := ⟨'m', by decide, by decide⟩
  have hlegacy : ¬"TABLE ".toList <+: upper (dropBlanks indexedRest.toList) := by decide
  exact ⟨hx, hlegacy, readDetail_tableWord hx hlegacy⟩

/-- With one more `TABLE` the two spellings name different tables. -/
example : (readDetail ("SCAN TABLE " ++ "table t")).relation = some "table" ∧
    (readDetail ("SCAN " ++ "table t")).relation = some "t" := by
  decide

end ScanAudit.Plan
