import ScanAudit.Plan.Detail
import ScanAudit.Proofs.Text.LetterCase

/-!
# Descriptions in another letter case

Keywords are found in either letter case, and names are cut out of a description as they stand
there. So two descriptions with the same letters are read alike: the steps are of one kind, and each
of their texts stands at the same place of its own description. A description in upper case is a
case of this, where the texts are those of the description as it was, in upper case.

* `SamePart`, `SameIndexName` — texts that stand at the same place of two descriptions, and the
  names of indexes, which may be our own
* `ReadAlike` — two steps that were read alike
* `pastTable`, `tableWord` — where a description names its table
* `readAlike_step`, `readAlike_readDetail` — the steps of two descriptions
* `Step.inUpper`, `readDetail_inUpper` — what upper case changes
-/

namespace ScanAudit.Plan

open Text

/-- The texts are parts of two descriptions, at the same place. -/
def SamePart (cs ds : List Char) (part part' : String) : Prop :=
  SamePlace cs ds part.toList part'.toList

/-- The names of indexes that no description gives. -/
def ownIndexNames : List String := ["AUTO-INDEX", "PRIMARY KEY"]

/-- The names of indexes are parts at the same place, or one and the same name of our own. -/
def SameIndexName (cs ds : List Char) (name name' : Option String) : Prop :=
  Option.Rel (SamePart cs ds) name name' ∨
    name = name' ∧ ∃ own ∈ ownIndexNames, name = some own

/-- Two steps that differ in their texts at most, and have these from the same places. -/
structure ReadAlike (cs ds : List Char) (step step' : Step) : Prop where
  kind : step.kind = step'.kind
  id : step.id = step'.id
  join : step.join = step'.join
  extra : step.extra = step'.extra
  description : Option.Rel (SamePart cs ds) step.description step'.description
  relation : Option.Rel (SamePart cs ds) step.relation step'.relation
  indexName : SameIndexName cs ds step.indexName step'.indexName
  indexCondition : Option.Rel (SamePart cs ds) step.indexCondition step'.indexCondition

/-! ## The texts of a step -/

/-- A text without the word `TABLE` and the space behind it, if it begins with them. -/
def pastTable (cs : List Char) : List Char :=
  if Keyword.startsWith "TABLE ".toList cs then cs.drop 6 else cs

/-- The word where a description with this first keyword names its table. -/
def tableWord (keyword : String) (cs : List Char) : List Char :=
  firstWord (pastTable (dropBlanks (cs.drop keyword.length)))

/-- The table of a description is the word where it names one, unless that is one of two reserved
words or there is none. -/
theorem tableAfter?_eq_ite (keyword : String) (cs : List Char) :
    tableAfter? keyword cs =
      if upper (tableWord keyword cs) = "CONSTANT".toList ∨
          upper (tableWord keyword cs) = "SUBQUERY".toList then none
      else nonEmpty? (tableWord keyword cs) :=
  rfl

section Texts

variable {cs ds part part' : List Char}

theorem samePart_ofList (hpart : SamePlace cs ds part part') :
    SamePart cs ds (String.ofList part) (String.ofList part') := by
  show SamePlace cs ds (String.ofList part).toList (String.ofList part').toList
  rwa [String.toList_ofList, String.toList_ofList]

/-- Parts at the same place are both empty or neither is. -/
theorem rel_nonEmpty? (h : SameLetters cs ds) (hpart : SamePlace cs ds part part') :
    Option.Rel (SamePart cs ds) (nonEmpty? part) (nonEmpty? part') := by
  rw [nonEmpty?, nonEmpty?, (hpart.sameLetters h).isEmpty_eq]
  split
  · exact .none
  · exact .some (samePart_ofList hpart)

/-- The word `TABLE` begins both texts or neither. -/
theorem samePlace_pastTable (h : SameLetters cs ds) :
    SamePlace cs ds (pastTable cs) (pastTable ds) := by
  rw [pastTable, pastTable, h.startsWith_eq]
  split
  · exact samePlace_drop h 6
  · exact samePlace_drop h 0

/-- The keyword, the blanks and the word `TABLE` are passed in both descriptions. -/
theorem samePlace_tableWord (h : SameLetters cs ds) (keyword : String) :
    SamePlace cs ds (tableWord keyword cs) (tableWord keyword ds) := by
  have hdrop := samePlace_drop h keyword.length
  have hrest := hdrop.trans (samePlace_dropBlanks (hdrop.sameLetters h))
  have hpast := hrest.trans (samePlace_pastTable (hrest.sameLetters h))
  exact hpast.trans (samePlace_firstWord (hpast.sameLetters h))

/-- The two reserved words are compared in upper case, so both texts have one of them or neither
does. -/
theorem rel_tableAfter? (h : SameLetters cs ds) (keyword : String) :
    Option.Rel (SamePart cs ds) (tableAfter? keyword cs) (tableAfter? keyword ds) := by
  have hword := samePlace_tableWord h keyword
  have hupper : upper (tableWord keyword cs) = upper (tableWord keyword ds) := hword.sameLetters h
  rw [tableAfter?_eq_ite, tableAfter?_eq_ite, hupper]
  split
  · exact .none
  · exact rel_nonEmpty? h hword

/-- The word after a keyword, up to a parenthesis. -/
theorem rel_indexAfter? (h : SameLetters cs ds) (keyword : String) :
    Option.Rel (SamePart cs ds) (indexAfter? keyword cs) (indexAfter? keyword ds) := by
  have hafter := rel_after? h keyword.toList
  unfold indexAfter?
  generalize Keyword.after? keyword.toList cs = rest, Keyword.after? keyword.toList ds = rest'
    at hafter
  cases hafter with
  | none => exact .none
  | some hplace =>
    -- the first word of the rest, cut at a parenthesis
    have hword := hplace.trans (samePlace_firstWord (hplace.sameLetters h))
    have hparenthesis : Caseless (· != '(') := caseless_bne (by decide)
    exact rel_nonEmpty? h
      (hword.trans (samePlace_takeWhile (hword.sameLetters h) hparenthesis))

/-- A parenthesis is no letter, so conditions are enclosed at the same place. -/
theorem rel_condition? (h : SameLetters cs ds) :
    Option.Rel (SamePart cs ds) (condition? cs) (condition? ds) := by
  have hbetween : Option.Rel (SamePlace cs ds) (betweenOuter? '(' ')' cs)
      (betweenOuter? '(' ')' ds) :=
    rel_betweenOuter? h (caseless_bne (by decide)) (caseless_bne (by decide))
  unfold condition?
  generalize betweenOuter? '(' ')' cs = part, betweenOuter? '(' ')' ds = part' at hbetween
  cases hbetween with
  | none => exact .none
  | some hplace => exact .some (samePart_ofList hplace)

/-- The second word of both descriptions. -/
theorem rel_operand? (h : SameLetters cs ds) :
    Option.Rel (SamePart cs ds) (operand? cs) (operand? ds) := by
  have hafter := samePlace_afterWord h
  exact rel_nonEmpty? h (hafter.trans (samePlace_firstWord (hafter.sameLetters h)))

end Texts

/-! ## The form and the step -/

section Steps

variable {cs ds : List Char}

/-- A keyword is in both descriptions or in neither. -/
theorem mentions_eq (h : SameLetters cs ds) (keyword : String) :
    mentions cs keyword = mentions ds keyword :=
  h.occurs_eq keyword.toList

/-- The form goes by the keyword that a description begins with. -/
theorem ofDetail_eq (h : SameLetters cs ds) : Form.ofDetail cs = Form.ofDetail ds := by
  have hstart : (fun k : String × Form => Keyword.startsWith k.1.toList cs) =
      fun k => Keyword.startsWith k.1.toList ds :=
    funext fun k => h.startsWith_eq k.1.toList
  rw [Form.ofDetail, hstart, Form.ofDetail]

/-- A step before it is given its description. -/
theorem readAlike_of_rel {kind : Kind} {join : Option Join} {extra : Json.Fields}
    {relation relation' indexName indexName' indexCondition indexCondition' : Option String}
    (hrelation : Option.Rel (SamePart cs ds) relation relation')
    (hname : SameIndexName cs ds indexName indexName')
    (hcondition : Option.Rel (SamePart cs ds) indexCondition indexCondition') :
    ReadAlike cs ds { kind, relation, indexName, indexCondition, join, extra }
      { kind, relation := relation', indexName := indexName', indexCondition := indexCondition',
        join, extra } :=
  ⟨rfl, rfl, rfl, rfl, .none, hrelation, hname, hcondition⟩

theorem sameIndexName_none : SameIndexName cs ds none none :=
  .inl .none

/-- A name of our own is the same for both descriptions. -/
theorem sameIndexName_own {own : String} (h : own ∈ ownIndexNames) :
    SameIndexName cs ds (some own) (some own) :=
  .inr ⟨rfl, own, h, rfl⟩

/-- By the questions that a scan is asked for its index, which have the same answers. -/
theorem readAlike_scanStep (h : SameLetters cs ds) :
    ReadAlike cs ds (scanStep cs) (scanStep ds) := by
  have hrelation := rel_tableAfter? h "SCAN"
  have hcovering := rel_indexAfter? h "COVERING INDEX"
  have hindex := rel_indexAfter? h "INDEX"
  unfold scanStep
  rw [mentions_eq h, mentions_eq h, mentions_eq h, mentions_eq h]
  cases mentions ds "USING COVERING INDEX" with
  | true => exact readAlike_of_rel hrelation (.inl hcovering) .none
  | false =>
    cases mentions ds "USING INDEX" with
    | true => exact readAlike_of_rel hrelation (.inl hindex) .none
    | false => exact readAlike_of_rel hrelation sameIndexName_none .none

/-- By the questions that a search is asked for its index: four kinds, and one without an index. -/
theorem readAlike_searchStep (h : SameLetters cs ds) :
    ReadAlike cs ds (searchStep cs) (searchStep ds) := by
  have hrelation := rel_tableAfter? h "SEARCH"
  have hcondition := rel_condition? h
  have hcovering := rel_indexAfter? h "COVERING INDEX"
  have hindex := rel_indexAfter? h "INDEX"
  unfold searchStep
  simp only [mentions_eq h]
  split
  · -- an index made for one query
    exact readAlike_of_rel hrelation (sameIndexName_own (by decide)) hcondition
  split
  · -- a covering index, or one that is not
    exact readAlike_of_rel hrelation (.inl hcovering) hcondition
  split
  · exact readAlike_of_rel hrelation (.inl hindex) hcondition
  split
  · exact readAlike_of_rel hrelation (sameIndexName_own (by decide)) hcondition
  · exact readAlike_of_rel hrelation sameIndexName_none hcondition

/-- In each form the questions asked of a description, and the places of its texts, are the same. -/
theorem readAlike_step (h : SameLetters cs ds) (form : Form) :
    ReadAlike cs ds (form.step cs) (form.step ds) := by
  have hoperand := rel_operand? h
  cases form with
  | scan => exact readAlike_scanStep h
  | search => exact readAlike_searchStep h
  | coroutine => exact readAlike_of_rel hoperand sameIndexName_none .none
  | materialize => exact readAlike_of_rel hoperand sameIndexName_none .none
  | tempTree =>
    show ReadAlike cs ds (tempTreeStep cs) (tempTreeStep ds)
    rw [tempTreeStep, mentions_eq h, mentions_eq h]
    exact readAlike_of_rel .none sameIndexName_none .none
  | subquery =>
    rw [Form.step, mentions_eq h]
    exact readAlike_of_rel .none sameIndexName_none .none
  -- the other forms give a fixed step, whatever the description is
  | _ => exact readAlike_of_rel .none sameIndexName_none .none

end Steps

/-! ## The description as a whole

The blanks around a description are the same in either letter case, so what stands at one place of
two trimmed descriptions stands at one place of the descriptions themselves. -/

section Details

variable {cs ds front front' : List Char}

/-- Parts of the trimmed descriptions are parts of the descriptions. -/
theorem rel_samePart_trans (hfront : SamePlace cs ds front front') {part part' : Option String}
    (hpart : Option.Rel (SamePart front front') part part') :
    Option.Rel (SamePart cs ds) part part' := by
  cases hpart with
  | none => exact .none
  | some hpart => exact .some (hfront.trans hpart)

/-- So are the texts of steps that were read from the trimmed descriptions. -/
theorem ReadAlike.of_part {step step' : Step} (halike : ReadAlike front front' step step')
    (hfront : SamePlace cs ds front front') : ReadAlike cs ds step step' where
  kind := halike.kind
  id := halike.id
  join := halike.join
  extra := halike.extra
  description := rel_samePart_trans hfront halike.description
  relation := rel_samePart_trans hfront halike.relation
  indexName := halike.indexName.imp_left (rel_samePart_trans hfront)
  indexCondition := rel_samePart_trans hfront halike.indexCondition

/-- Two descriptions with the same letters are trimmed, classified and read alike, and each becomes
the description of its step. -/
theorem readAlike_readDetail {detail other : String}
    (h : SameLetters detail.toList other.toList) :
    ReadAlike detail.toList other.toList (readDetail detail) (readDetail other) := by
  have htrim := samePlace_trim h
  have hletters := htrim.sameLetters h
  have hstep : ReadAlike (trim detail.toList) (trim other.toList)
      ((Form.ofDetail (trim detail.toList)).step (trim detail.toList))
      ((Form.ofDetail (trim other.toList)).step (trim other.toList)) := by
    rw [ofDetail_eq hletters]
    exact readAlike_step hletters _
  unfold readDetail
  exact { hstep.of_part htrim with description := .some (samePart_ofList htrim) }

end Details

/-! ## Descriptions in upper case -/

/-- A step with its texts in upper case. -/
def Step.inUpper (step : Step) : Step :=
  { step with
    description := step.description.map Text.inUpper
    relation := step.relation.map Text.inUpper
    indexName := step.indexName.map Text.inUpper
    indexCondition := step.indexCondition.map Text.inUpper }

section InUpper

variable {cs : List Char}

/-- What stands in the upper case of a text is the upper case of what stands there in the text. -/
theorem SamePart.eq_inUpper {part part' : String} (h : SamePart cs (upper cs) part part') :
    part' = inUpper part := by
  obtain ⟨start, length, hpart, hpart'⟩ := h
  apply String.toList_inj.mp
  rw [toList_inUpper, hpart, hpart', upper, upper, List.map_take, List.map_drop]

/-- The same where there may be no text. -/
theorem eq_map_inUpper {part part' : Option String}
    (h : Option.Rel (SamePart cs (upper cs)) part part') : part' = part.map inUpper := by
  cases h with
  | none => rfl
  | some h => rw [h.eq_inUpper, Option.map_some]

/-- Our own names are in upper case already. -/
theorem inUpper_of_mem_ownIndexNames : ∀ name ∈ ownIndexNames, inUpper name = name := by
  decide

/-- A step that was read alike from the upper case of a description has its texts in upper case. -/
theorem ReadAlike.eq_inUpper {step step' : Step} (h : ReadAlike cs (upper cs) step step') :
    step' = step.inUpper := by
  have hname : step'.indexName = step.indexName.map inUpper := by
    -- the name of the index is from the description or one of our own
    rcases h.indexName with hpart | ⟨hsame, name, hmem, hname⟩
    · exact eq_map_inUpper hpart
    · rw [← hsame, hname, Option.map_some, inUpper_of_mem_ownIndexNames name hmem]
  cases step'
  rw [Step.inUpper, Step.mk.injEq]
  exact ⟨h.kind.symm, h.id.symm, eq_map_inUpper h.description, eq_map_inUpper h.relation, hname,
    eq_map_inUpper h.indexCondition, h.join.symm, h.extra.symm⟩

end InUpper

/-- The step of a description in upper case is the step of the description with its texts in upper
case. Any two descriptions with the same letters are read alike: the kind, the join and the other
properties are the same, and the texts stand at the same places. -/
theorem readDetail_inUpper (detail : String) :
    readDetail (inUpper detail) = (readDetail detail).inUpper ∧
      ∀ other, inUpper other = inUpper detail →
        ReadAlike detail.toList other.toList (readDetail detail) (readDetail other) := by
  constructor
  · have hletters : SameLetters detail.toList (inUpper detail).toList := by
      rw [toList_inUpper]
      exact sameLetters_upper detail.toList
    have halike := readAlike_readDetail hletters
    rw [toList_inUpper] at halike
    exact halike.eq_inUpper
  · intro other hother
    exact readAlike_readDetail (inUpper_eq_iff.mp hother.symm)

/-- The two differ in the case of both keywords and names, and a letter that is not ASCII stays. -/
theorem readDetail_inUpper_search :
    inUpper "search Grüße using index Grüße_key (id=?)" =
        inUpper "SEARCH grüße USING INDEX grüße_KEY (ID=?)" ∧
      ReadAlike "SEARCH grüße USING INDEX grüße_KEY (ID=?)".toList
        "search Grüße using index Grüße_key (id=?)".toList
        (readDetail "SEARCH grüße USING INDEX grüße_KEY (ID=?)")
        (readDetail "search Grüße using index Grüße_key (id=?)") ∧
      (readDetail (inUpper "SEARCH grüße USING INDEX grüße_KEY (ID=?)")).relation =
        some "GRüßE" := by
  have hletters : inUpper "search Grüße using index Grüße_key (id=?)" =
      inUpper "SEARCH grüße USING INDEX grüße_KEY (ID=?)" := by decide
  obtain ⟨hupper, halike⟩ := readDetail_inUpper "SEARCH grüße USING INDEX grüße_KEY (ID=?)"
  refine ⟨hletters, halike _ hletters, ?_⟩
  rw [hupper]
  decide

end ScanAudit.Plan
