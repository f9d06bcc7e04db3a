import ScanAudit.Proofs.Plan.PlainScan
import ScanAudit.Proofs.Plan.Slices

/-!
# The texts of a step

What a step says of its table and its index stands in the description, whatever the description is:
a name is one word of it, or, for an index that has no name of its own, one of two fixed texts. The
condition of a lookup is all between the outer parentheses.

* `WordOf` — a name that is one word of a text
* `Form.kinds` — the kinds that the steps of a form can have
* `step_cases` — the fields of a step, over the forms of descriptions
* `OfPieces` — what the step of a description has of it
* `readDetail_pieces` — the step of any description
-/

namespace ScanAudit.Plan

open Explain Text

/-- A name stands as one word in a text. -/
structure WordOf (name : String) (cs : List Char) : Prop where
  isWord : IsWord name.toList
  isInfix : name.toList <:+: cs

/-! ## Names -/

/-- A name that was cut out has characters, and they are those that were cut out. -/
theorem nonEmpty?_eq_some {cs : List Char} {name : String} (h : nonEmpty? cs = some name) :
    cs ≠ [] ∧ name.toList = cs := by
  rw [nonEmpty?] at h
  split at h
  · cases h
  · next hne =>
    obtain rfl := Option.some.inj h
    exact ⟨by simpa using hne, String.toList_ofList⟩

theorem wordOf_firstWord {part cs : List Char} (hpart : part <:+: cs) {name : String}
    (h : nonEmpty? (firstWord part) = some name) : WordOf name cs := by
  obtain ⟨hne, hname⟩ := nonEmpty?_eq_some h
  refine ⟨hname ▸ isWord_firstWord hne, ?_⟩
  rw [hname]
  exact (firstWord_isInfix part).trans hpart

theorem pastTable_suffix (cs : List Char) : pastTable cs <:+ cs := by
  rw [pastTable]
  split
  · exact List.drop_suffix _ _
  · exact List.suffix_rfl

/-- The table behind a keyword is a word of the description. -/
theorem wordOf_tableAfter? {keyword : String} {cs : List Char} {table : String}
    (h : tableAfter? keyword cs = some table) : WordOf table cs := by
  rw [tableAfter?_eq_ite] at h
  split at h
  · cases h
  · have hpart : pastTable (dropBlanks (cs.drop keyword.length)) <:+ cs :=
      (pastTable_suffix _).trans ((List.dropWhile_suffix _).trans (List.drop_suffix _ _))
    exact wordOf_firstWord hpart.isInfix h

theorem wordOf_operand? {cs : List Char} {name : String} (h : operand? cs = some name) :
    WordOf name cs := by
  have hpart : afterWord cs <:+ cs :=
    (List.dropWhile_suffix _).trans (List.dropWhile_suffix _)
  exact wordOf_firstWord hpart.isInfix h

/-- A parenthesis ends the name of an index, so none is in it. -/
theorem wordOf_indexAfter? {keyword : String} {cs : List Char} {index : String}
    (h : indexAfter? keyword cs = some index) : WordOf index cs ∧ '(' ∉ index.toList := by
  obtain ⟨rest, hrest, hname⟩ := Option.bind_eq_some_iff.mp h
  obtain ⟨hne, htext⟩ := nonEmpty?_eq_some hname
  have hfront : (firstWord rest).takeWhile (· != '(') <+: firstWord rest :=
    List.takeWhile_prefix _
  have hword : IsWord (firstWord rest) :=
    isWord_firstWord fun hnil => hne (List.prefix_nil.mp (hnil ▸ hfront))
  -- what is in front of the parenthesis has no blank either, and is not empty
  rw [htext]
  refine ⟨⟨⟨htext ▸ hne, fun c hc => ?_⟩, ?_⟩, fun hmem => ?_⟩
  · exact hword.not_blank c (hfront.subset (htext ▸ hc))
  · rw [htext]
    exact hfront.isInfix.trans
      ((firstWord_isInfix rest).trans (Keyword.suffix_of_after? hrest).isInfix)
  · simpa using List.mem_takeWhile_imp hmem

/-! ## The kinds of a form -/

/-- The kinds that the steps of a form can have. -/
def Form.kinds : Form → List Kind
  | .scan => [.seqScan, .indexScan, .indexOnlyScan, .valuesScan, .subqueryScan]
  | .search => [.indexScan, .indexOnlyScan]
  | .tempTree => [.sort, .unique, .hashAggregate]
  | .compound => [.setOp]
  | .listSubquery => [.subqueryScan]
  | .subquery => [.subqueryScan]
  | .coroutine => [.cteScan]
  | .materialize => [.materialize]
  | .unionAll => [.append]
  | .setOperation => [.setOp]
  | .merge => [.mergeAppend]
  | .leftPart => [.nestedLoop]
  | .rightPart => [.nestedLoop]
  | .bloomFilter => [.hash]
  | .other => [.unknown]

/-- Every scan has the table behind its keyword, and may have the index behind another. -/
theorem scanStep_cases (cs : List Char) :
    ∃ kind indexName, scanStep cs = { kind, indexName, relation := tableAfter? "SCAN" cs } ∧
      kind ∈ Form.kinds .scan ∧
      ∀ index, indexName = some index → ∃ keyword, indexAfter? keyword cs = some index := by
  have hkind : ∀ kind ∈ [Kind.seqScan, .indexScan, .indexOnlyScan],
      (if mentions cs "CONSTANT ROW" then .valuesScan
        else if mentions cs "SUBQUERY" then .subqueryScan else kind) ∈ Form.kinds .scan := by
    intro kind hkind
    split
    · decide
    split
    · decide
    · exact List.mem_append_left [.valuesScan, .subqueryScan] hkind
  -- the words on indexes are looked for in this order
  unfold scanStep
  cases hcovering : mentions cs "USING COVERING INDEX" with
  | true => exact ⟨_, _, rfl, hkind .indexOnlyScan (by decide), fun _ h => ⟨_, h⟩⟩
  | false =>
    cases hindex : mentions cs "USING INDEX" with
    | true => exact ⟨_, _, rfl, hkind .indexScan (by decide), fun _ h => ⟨_, h⟩⟩
    | false => exact ⟨_, none, rfl, hkind .seqScan (by decide), nofun⟩

/-- Every lookup has the table behind its keyword and the condition in parentheses. -/
theorem searchStep_cases (cs : List Char) :
    ∃ kind indexName extra,
      searchStep cs = { kind, indexName, relation := tableAfter? "SEARCH" cs,
                        indexCondition := condition? cs, extra } ∧
      kind ∈ Form.kinds .search ∧
      ∀ index, indexName = some index →
        index ∈ ownIndexNames ∨ ∃ keyword, indexAfter? keyword cs = some index := by
  -- an index that the database made for the statement, two that have a name, and the rows' own key
  unfold searchStep
  split
  · refine ⟨_, _, _, rfl, by decide, fun index h => .inl ?_⟩
    obtain rfl := Option.some.inj h
    decide
  split
  · exact ⟨_, _, _, rfl, by decide, fun _ h => .inr ⟨_, h⟩⟩
  split
  · exact ⟨_, _, _, rfl, by decide, fun _ h => .inr ⟨_, h⟩⟩
  split
  · refine ⟨_, _, _, rfl, by decide, fun index h => .inl ?_⟩
    obtain rfl := Option.some.inj h
    decide
  · exact ⟨_, none, _, rfl, by decide, nofun⟩

/-- Every step with a temporary tree says so, and is of one of three kinds. -/
theorem tempTreeStep_cases (cs : List Char) :
    ∃ kind, tempTreeStep cs = { kind, extra := flag "using_temp_btree" } ∧
      kind ∈ Form.kinds .tempTree := by
  refine ⟨_, rfl, ?_⟩
  split
  · decide
  split
  · decide
  · decide

/-- The join of a form of descriptions. -/
def Form.join? : Form → Option Join
  | .leftPart => some .left
  | .rightPart => some .right
  | _ => none

/-- What the step of a form has, whatever the form is. -/
theorem step_cases (form : Form) (cs : List Char) :
    ∃ kind relation indexName extra,
      form.step cs = { kind, relation, indexName, extra, join := form.join?,
                       indexCondition := if form = .search then condition? cs else none } ∧
      kind ∈ form.kinds ∧
      (∀ table, relation = some table → WordOf table cs) ∧
      ∀ index, indexName = some index →
        index ∈ ownIndexNames ∨ WordOf index cs ∧ '(' ∉ index.toList := by
  -- scans and lookups name a table and an index, two other forms name a subquery, and the rest no
  -- name
  cases form with
  | scan =>
    obtain ⟨kind, indexName, hstep, hkind, hname⟩ := scanStep_cases cs
    refine ⟨kind, _, indexName, _, hstep, hkind, fun _ => wordOf_tableAfter?, fun index h => ?_⟩
    obtain ⟨keyword, hafter⟩ := hname index h
    exact .inr (wordOf_indexAfter? hafter)
  | search =>
    obtain ⟨kind, indexName, extra, hstep, hkind, hname⟩ := searchStep_cases cs
    refine ⟨kind, _, indexName, extra, hstep, hkind, fun _ => wordOf_tableAfter?, fun index h => ?_⟩
    exact (hname index h).imp_right fun ⟨_, hafter⟩ => wordOf_indexAfter? hafter
  | tempTree =>
    obtain ⟨kind, hstep, hkind⟩ := tempTreeStep_cases cs
    exact ⟨kind, none, none, _, hstep, hkind, nofun, nofun⟩
  | coroutine => exact ⟨_, _, none, _, rfl, .head _, fun _ => wordOf_operand?, nofun⟩
  | materialize => exact ⟨_, _, none, _, rfl, .head _, fun _ => wordOf_operand?, nofun⟩
  | _ => exact ⟨_, none, none, _, rfl, .head _, nofun, nofun⟩

theorem kind_step_mem (form : Form) (cs : List Char) : (form.step cs).kind ∈ form.kinds := by
  obtain ⟨kind, relation, indexName, extra, hstep, hkind, -⟩ := step_cases form cs
  rw [hstep]
  exact hkind

/-- The forms with a join are those of the nested loops, which have no other kind. -/
theorem isSome_join?_iff {form : Form} {kind : Kind} (h : kind ∈ form.kinds) :
    form.join?.isSome ↔ kind = .nestedLoop := by
  revert h
  cases form <;> cases kind <;> decide

/-- No description gives a join other than a left or a right one. -/
theorem join?_eq_some {form : Form} {join : Join} (h : form.join? = some join) :
    join = .left ∨ join = .right := by
  revert h
  cases form <;> cases join <;> decide

/-! ## The step of a description -/

/-- No description begins with two of the first keywords. -/
theorem ofDetail_eq_search_iff {cs : List Char} :
    Form.ofDetail cs = .search ↔ "SEARCH".toList <+: upper cs := by
  rw [← List.isPrefixOf_iff_prefix, ← Keyword.startsWith_eq_isPrefixOf_upper]
  refine ⟨startsWith_of_ofDetail_eq_search, fun h => ?_⟩
  have hscan : Keyword.startsWith "SCAN".toList cs = false := by
    -- the only keyword that is tried before is `SCAN`, and no text begins with both
    rw [Bool.eq_false_iff]
    intro hscan
    rw [Keyword.startsWith_eq_isPrefixOf_upper, List.isPrefixOf_iff_prefix] at h hscan
    exact absurd (List.prefix_of_prefix_length_le hscan h (by decide)) (by decide)
  rw [Form.ofDetail, Form.keywords, List.find?_cons_of_neg (by simpa using hscan),
    List.find?_cons_of_pos (by exact h)]

/-- The condition is what stands between the first opening parenthesis and the last closing one. -/
theorem condition?_eq_some_iff {cs : List Char} {condition : String} :
    condition? cs = some condition ↔
      ∃ before after, cs = before ++ '(' :: (condition.toList ++ ')' :: after) ∧
        '(' ∉ before ∧ ')' ∉ after := by
  rw [condition?, Option.map_eq_some_iff, ← betweenOuter?_eq_some_iff]
  constructor
  · rintro ⟨inside, hinside, rfl⟩
    rwa [String.toList_ofList]
  · intro h
    exact ⟨_, h, String.ofList_toList⟩

/-- A step is made of pieces of a description without blanks around it. -/
structure OfPieces (cs : List Char) (step : Step) : Prop where
  unnumbered : step.id = none
  /-- The whole description is kept. -/
  description : step.description = some (String.ofList cs)
  relation : ∀ table, step.relation = some table → IsWord table.toList ∧ table.toList <:+: cs
  indexName : ∀ index, step.indexName = some index →
    index = "AUTO-INDEX" ∨ index = "PRIMARY KEY" ∨
      IsWord index.toList ∧ '(' ∉ index.toList ∧ index.toList <:+: cs
  /-- The condition of a lookup, and of nothing else, is what the outer parentheses enclose. -/
  indexCondition : ∀ condition, step.indexCondition = some condition ↔
    "SEARCH".toList <+: upper cs ∧
      ∃ before after, cs = before ++ '(' :: (condition.toList ++ ')' :: after) ∧
        '(' ∉ before ∧ ')' ∉ after
  isSome_join : step.join.isSome ↔ step.kind = .nestedLoop
  join : ∀ join, step.join = some join → join = .left ∨ join = .right

/-- The step of any description is made of pieces of it. -/
theorem ofPieces_readDetail (detail : String) :
    OfPieces (trim detail.toList) (readDetail detail) := by
  let cs := trim detail.toList
  obtain ⟨kind, relation, indexName, extra, hform, hkind, hrelation, hindex⟩ :=
    step_cases (Form.ofDetail cs) cs
  have hstep : readDetail detail =
      { kind, relation, indexName, extra, join := (Form.ofDetail cs).join?,
        indexCondition := if Form.ofDetail cs = .search then condition? cs else none,
        description := some (String.ofList cs) } := by
    show { (Form.ofDetail cs).step cs with description := some (String.ofList cs) } = _
    rw [hform]
  rw [hstep]
  constructor
  case unnumbered => rfl
  case description => rfl
  case relation =>
    intro table h
    exact ⟨(hrelation table h).isWord, (hrelation table h).isInfix⟩
  case indexName =>
    intro index h
    obtain hown | ⟨hword, hparenthesis⟩ := hindex index h
    · rcases List.mem_pair.mp hown with hauto | hkey
      · exact .inl hauto
      · exact .inr (.inl hkey)
    · exact .inr (.inr ⟨hword.isWord, hparenthesis, hword.isInfix⟩)
  case indexCondition =>
    intro condition
    rw [← ofDetail_eq_search_iff, ← condition?_eq_some_iff]
    by_cases hsearch : Form.ofDetail cs = .search
    · simp [hsearch, cs]
    · simp [hsearch, cs]
  case isSome_join => exact isSome_join?_iff hkind
  case join => exact fun join => join?_eq_some

/-- What any description gives: all cuts are between characters, the texts of the step are pieces of
the description without the blanks around it, and the step is the only one of its plan. -/
theorem readDetail_pieces (detail : String) :
    readDetailBySlices detail = .ok (readDetail detail) ∧
      OfPieces (trim detail.toList) (readDetail detail) ∧
      ∀ id notUsed, Tree.ofRows [⟨id, 0, notUsed, detail⟩] =
        .ok (.node { readDetail detail with id := some id } []) :=
  ⟨readDetailBySlices_eq detail, ofPieces_readDetail detail, fun _ _ => ofRows_singleton rfl⟩

end ScanAudit.Plan
