import Mathlib.Data.List.TakeWhile
import ScanAudit.Proofs.Plan.PlainScan

/-!
# Lookups through an index

The description of a lookup names a table, an index and the condition on the index, and the step has
all three. The condition is what stands between the first parenthesis and the last, so it is read
back whatever it is. The index is not: what comes before it may have its keyword, and the letters of
an index made for one query are looked for in all of the text.

* `lookup` — the characters of a description
* `tableAfter?_lookup`, `condition?_lookup` — its table and its condition
* `mentions_lookup` — a keyword in one of the names or in the condition
* `after?_lookup_of_cut` — a keyword of two words can only be in the condition
* `indexAfter?_lookup`, `indexAfter?_coveringLookup` — the index
* `readDetail_lookup`, `readDetail_coveringLookup` — the steps of the two kinds of lookups
* `indexLookup_readBack` — when a step has the index that its description names
-/

namespace ScanAudit.Plan

open Text

/-- The description of a lookup through an index, with `USING INDEX` or with another keyword. -/
def lookupDetail (keyword table index condition : String) : String :=
  "SEARCH " ++ table ++ " " ++ keyword ++ " " ++ index ++ " (" ++ condition ++ ")"

/-- The characters of the description of a lookup. -/
def lookup (keyword table index condition : List Char) : List Char :=
  "SEARCH".toList ++ ' ' :: (table ++ ' ' ::
    (keyword ++ ' ' :: (index ++ ' ' :: '(' :: (condition ++ [')']))))

/-- A description as the characters that it is read by. -/
theorem toList_lookupDetail (keyword table index condition : String) :
    (lookupDetail keyword table index condition).toList =
      lookup keyword.toList table.toList index.toList condition.toList := by
  unfold lookupDetail
  simp only [String.toList_append, List.append_assoc]
  rfl

/-- A lookup begins with its keyword and ends with its parenthesis, so there is nothing to trim. -/
theorem trim_lookup (keyword table index condition : List Char) :
    trim (lookup keyword table index condition) = lookup keyword table index condition := by
  have hmiddle : ' ' :: (table ++ ' ' :: (keyword ++ ' ' :: (index ++ ' ' :: '(' :: condition))) ++
      [')'] = ' ' :: (table ++ ' ' ::
        (keyword ++ ' ' :: (index ++ ' ' :: '(' :: (condition ++ [')'])))) := by
    simp only [List.append_assoc, List.cons_append]
  unfold lookup
  rw [← hmiddle, ← List.append_assoc]
  exact trim_append _ _ _ (by decide) (by decide)

/-- The table of a lookup is found, whatever the rest of its description is. -/
theorem tableAfter?_lookup {table : String} (h : TableName table)
    (keyword index condition : List Char) :
    tableAfter? "SEARCH" (lookup keyword table.toList index condition) = some table := by
  have htable : ("TABLE".toList == upper table.toList) = false :=
    beq_false_of_ne (h.notReserved "TABLE" (by decide)).symm
  -- only the name `TABLE` could be taken for the keyword that may stand before a name
  have hlegacy (rest : List Char) :
      Keyword.startsWith ("TABLE".toList ++ ' ' :: []) (table.toList ++ ' ' :: rest) = false := by
    rw [Keyword.startsWith_append_append rfl (by decide) (h.word.not_mem_upper isBlank_space),
      htable, Bool.false_and]
  exact h.tableAfter?_eq "SEARCH" (h.word.firstWord_append isBlank_space _) (hlegacy _)

/-- The first parenthesis of a lookup opens its condition, and the last one closes it. The condition
itself may have any. -/
theorem condition?_lookup {keyword table index : List Char} (hkeyword : '(' ∉ keyword)
    (htable : '(' ∉ table) (hindex : '(' ∉ index) (condition : List Char) :
    condition? (lookup keyword table index condition) = some (String.ofList condition) := by
  have hbefore : '(' ∉ "SEARCH".toList ++ ' ' ::
      (table ++ ' ' :: (keyword ++ ' ' :: (index ++ [' ']))) := by
    simp [hkeyword, htable, hindex]
  have hbetween := betweenOuter?_append hbefore (List.not_mem_nil (a := ')')) condition
  simp only [List.append_assoc, List.cons_append, List.nil_append] at hbetween
  unfold condition? lookup
  rw [hbetween]
  rfl

/-! ## Keywords in a lookup -/

/-- A keyword without blanks and parentheses is in one of the names or in the condition, if it is
not in the words that all lookups have. -/
theorem mentions_lookup {keyword : List Char} {word : String} (hne : word.toList ≠ [])
    (hspace : ' ' ∉ word.toList) (hopen : '(' ∉ word.toList) (hclose : ')' ∉ word.toList)
    (hsearch : mentions "SEARCH".toList word = false) (hkeyword : mentions keyword word = false)
    (table index condition : List Char) :
    mentions (lookup keyword table index condition) word =
      (mentions table word || mentions index word || mentions condition word) := by
  have hword (a b : List Char) : Keyword.occurs word.toList (a ++ ' ' :: b) =
      (Keyword.occurs word.toList a || Keyword.occurs word.toList b) :=
    Keyword.occurs_append_cons (c := ' ') hne hspace a b
  have hcondition : Keyword.occurs word.toList ('(' :: (condition ++ [')'])) =
      Keyword.occurs word.toList condition := by
    rw [Keyword.occurs_cons (c := '(') hne hopen, Keyword.occurs_append_cons (c := ')') hne hclose,
      Keyword.occurs_nil hne, Bool.or_false]
  rw [mentions] at hsearch hkeyword
  unfold lookup
  simp only [mentions, hword, hsearch, hkeyword, hcondition, Bool.false_or, Bool.or_assoc]

/-- A keyword of two words is passed over up to the parenthesis: its first word ends none before it,
or is followed by another than its second. -/
theorem after?_lookup_of_cut (front back : List Char) {table index : List Char}
    (hspace : ' ' ∉ front)
    (hsearch : ¬front <:+ upper "SEARCH".toList) (hindexWord : ¬front <:+ upper "INDEX".toList)
    (htable : ∀ rest, Keyword.startsWith back ("USING".toList ++ rest) = false)
    (husing : front <:+ upper "USING".toList →
      ∀ rest, Keyword.startsWith back ("INDEX".toList ++ rest) = false)
    (hopen : ∀ rest, Keyword.startsWith back ('(' :: rest) = false)
    (ht : IsWord table) (hi : IsWord index) (condition : List Char) :
    Keyword.after? (front ++ ' ' :: back) (lookup "USING INDEX".toList table index condition) =
      Keyword.after? (front ++ ' ' :: back) ('(' :: (condition ++ [')'])) := by
  have hwords (rest : List Char) :
      "USING INDEX".toList ++ ' ' :: rest =
        "USING".toList ++ ' ' :: ("INDEX".toList ++ ' ' :: rest) :=
    rfl
  -- one word after the other is passed, up to the parenthesis
  unfold lookup
  rw [hwords,
    Keyword.after?_word_append rfl hspace (by decide) fun h => absurd h hsearch,
    Keyword.after?_word_append rfl hspace (ht.not_mem_upper isBlank_space) fun _ => htable _,
    Keyword.after?_word_append rfl hspace (by decide) fun h => husing h _,
    Keyword.after?_word_append rfl hspace (by decide) fun h => absurd h hindexWord,
    Keyword.after?_word_append rfl hspace (hi.not_mem_upper isBlank_space) fun _ => hopen _]

/-- The keyword of the other kind is in a lookup only if the condition has it. -/
theorem mentions_usingCovering_lookup {table index : List Char} (ht : IsWord table)
    (hi : IsWord index) (condition : List Char) :
    mentions (lookup "USING INDEX".toList table index condition) "USING COVERING INDEX" =
      mentions condition "USING COVERING INDEX" := by
  have hcut : Keyword.after? "USING COVERING INDEX".toList
      (lookup "USING INDEX".toList table index condition) =
        Keyword.after? "USING COVERING INDEX".toList ('(' :: (condition ++ [')'])) :=
    after?_lookup_of_cut "USING".toList "COVERING INDEX".toList (by decide) (by decide) (by decide)
      (fun _ => rfl) (fun _ _ => rfl) (fun _ => rfl) ht hi condition
  -- behind the parenthesis there are the condition and another one
  rw [mentions, ← Keyword.isSome_after?_eq_occurs, hcut, Keyword.isSome_after?_eq_occurs,
    Keyword.occurs_cons (by decide) (by decide),
    Keyword.occurs_append_cons (by decide) (by decide), Keyword.occurs_nil (by decide),
    Bool.or_false, mentions]

/-- The keyword of a lookup is in its description. -/
theorem mentions_lookup_self (keyword : String)
    (h : ∀ rest, Keyword.occurs keyword.toList (keyword.toList ++ rest) = true)
    (table index condition : List Char) :
    mentions (lookup keyword.toList table index condition) keyword = true := by
  have htable := Keyword.occurs_append_of_occurs
    (h (' ' :: (index ++ ' ' :: '(' :: (condition ++ [')'])))) (' ' :: (table ++ [' ']))
  have hall := Keyword.occurs_append_of_occurs htable "SEARCH".toList
  unfold mentions lookup
  simpa only [List.append_assoc, List.cons_append, List.nil_append] using hall

/-! ## The index of a lookup -/

/-- The word after a keyword, if it has no parenthesis. -/
theorem indexAfter?_of_firstWord {keyword name : String} {cs rest : List Char}
    (hafter : Keyword.after? keyword.toList cs = some rest)
    (hfirst : firstWord rest = name.toList) (hne : name.toList ≠ []) (hopen : '(' ∉ name.toList) :
    indexAfter? keyword cs = some name := by
  have hword : name.toList.takeWhile (· != '(') = name.toList :=
    List.takeWhile_eq_self_iff.mpr (bne_of_not_mem hopen)
  rw [indexAfter?, hafter]
  show nonEmpty? ((firstWord rest).takeWhile (· != '(')) = some name
  rw [hfirst, hword, nonEmpty?_toList hne]

/-- What follows the first `INDEX` of a lookup: the name of the index, unless the name of the table
has that keyword. -/
def indexRead (table index : String) : String :=
  match Keyword.after? "INDEX".toList table.toList with
  | none => index
  | some [] => "USING"
  | some rest => String.ofList rest

/-- The first `INDEX` of a lookup is in the name of the table, or it is that of its own keyword. -/
theorem after?_index_lookup (table index condition : List Char) :
    Keyword.after? "INDEX".toList (lookup "USING INDEX".toList table index condition) =
      ((Keyword.after? "INDEX".toList table).map (· ++ ' ' ::
        ("USING INDEX".toList ++ ' ' :: (index ++ ' ' :: '(' :: (condition ++ [')']))))).or
          (some (' ' :: (index ++ ' ' :: '(' :: (condition ++ [')'])))) := by
  unfold lookup
  rw [Keyword.after?_append_cons (by decide) (by decide),
    Keyword.after?_append_cons (by decide) (by decide)]
  rfl

/-- The index of a lookup, by the rest of the table's name if it has the keyword. -/
theorem indexAfter?_lookup {table index : String} (ht : IsWord table.toList)
    (hi : IsWord index.toList) (htable : '(' ∉ table.toList) (hindex : '(' ∉ index.toList)
    (condition : List Char) :
    indexAfter? "INDEX" (lookup "USING INDEX".toList table.toList index.toList condition) =
      some (indexRead table index) := by
  have hafter := after?_index_lookup table.toList index.toList condition
  unfold indexRead
  cases hfound : Keyword.after? "INDEX".toList table.toList with
  | none =>
    rw [hfound] at hafter
    -- the table has no such keyword, so the next word is the index
    refine indexAfter?_of_firstWord hafter ?_ hi.ne_nil hindex
    rw [firstWord_cons_of_blank isBlank_space, hi.firstWord_append isBlank_space]
  | some rest =>
    rw [hfound] at hafter
    have hsuffix := Keyword.suffix_of_after? hfound
    cases rest with
    | nil =>
      -- the name of the table ends in the keyword, so that the next word is taken for the index
      have husing : IsWord "USING".toList := by decide
      show indexAfter? "INDEX" _ = some "USING"
      refine indexAfter?_of_firstWord hafter ?_ husing.ne_nil (by decide)
      exact husing.firstWord_append isBlank_space _
    | cons c rest =>
      -- what is left of the table's name is a word, and is taken for the index
      have hword : IsWord (c :: rest) :=
        ⟨List.cons_ne_nil c rest, fun x hx => ht.not_blank x (hsuffix.subset hx)⟩
      show indexAfter? "INDEX" _ = some (String.ofList (c :: rest))
      refine indexAfter?_of_firstWord hafter ?_ ?_ ?_
      · exact (hword.firstWord_append isBlank_space _).trans String.toList_ofList.symm
      · rw [String.toList_ofList]
        exact hword.ne_nil
      · rw [String.toList_ofList]
        exact fun h => htable (hsuffix.subset h)

/-- The keyword of a covering lookup has two words, which no name has: its index is found. -/
theorem indexAfter?_coveringLookup {table : List Char} {index : String} (ht : IsWord table)
    (hi : IsWord index.toList) (hindex : '(' ∉ index.toList) (condition : List Char) :
    indexAfter? "COVERING INDEX"
      (lookup "USING COVERING INDEX".toList table index.toList condition) = some index := by
  have hafter : Keyword.after? "COVERING INDEX".toList
      (lookup "USING COVERING INDEX".toList table index.toList condition) =
        some (' ' :: (index.toList ++ ' ' :: '(' :: (condition ++ [')']))) := by
    unfold lookup
    show Keyword.after? ("COVERING".toList ++ ' ' :: "INDEX".toList) _ = _
    rw [Keyword.after?_word_append rfl (by decide) (by decide) fun h =>
        -- neither the first word nor the table ends in the first word of the keyword with the
        -- second behind it
        absurd h (by decide),
      Keyword.after?_word_append rfl (by decide) (ht.not_mem_upper isBlank_space) fun _ => rfl]
    rfl
  refine indexAfter?_of_firstWord hafter ?_ hi.ne_nil hindex
  rw [firstWord_cons_of_blank isBlank_space, hi.firstWord_append isBlank_space]

/-- A keyword of an index that is only in the condition. -/
theorem indexAfter?_covering_lookup {table index : List Char} (ht : IsWord table)
    (hi : IsWord index) (condition : List Char) :
    indexAfter? "COVERING INDEX" (lookup "USING INDEX".toList table index condition) =
      indexAfter? "COVERING INDEX" (condition ++ [')']) := by
  have hcut : Keyword.after? "COVERING INDEX".toList
      (lookup "USING INDEX".toList table index condition) =
        Keyword.after? "COVERING INDEX".toList ('(' :: (condition ++ [')'])) :=
    after?_lookup_of_cut "COVERING".toList "INDEX".toList (by decide) (by decide) (by decide)
      (fun _ => rfl) (fun h => absurd h (by decide)) (fun _ => rfl) ht hi condition
  rw [indexAfter?, hcut, Keyword.after?_cons (by decide) (by decide), indexAfter?]

/-! ## The step of a lookup -/

/-- Whether one of some texts has a keyword. -/
def anyMentions (texts : List String) (keyword : String) : Bool :=
  texts.any (mentions ·.toList keyword)

/-- Whether a lookup has, in its names or its condition, the letters of an index that is made for
one query. -/
def looksAutomatic (table index condition : String) : Bool :=
  anyMentions [table, index, condition] "AUTOMATIC" ||
    anyMentions [table, index, condition] "AUTO-INDEX"

/-- The letters of an index made for one query are looked for in both of their spellings, and the
words that all lookups have are without them. -/
theorem mentions_automatic_lookup (keyword table index condition : String)
    (hautomatic : mentions keyword.toList "AUTOMATIC" = false)
    (hautoIndex : mentions keyword.toList "AUTO-INDEX" = false) :
    (mentions (lookup keyword.toList table.toList index.toList condition.toList) "AUTOMATIC" ||
        mentions (lookup keyword.toList table.toList index.toList condition.toList) "AUTO-INDEX") =
      looksAutomatic table index condition := by
  rw [mentions_lookup (by decide) (by decide) (by decide) (by decide) rfl hautomatic,
    mentions_lookup (by decide) (by decide) (by decide) (by decide) rfl hautoIndex]
  simp [looksAutomatic, anyMentions, Bool.or_assoc]

/-- The step of rows that are looked up through an index made for one query. -/
def automaticStep : Step :=
  { kind := .indexOnlyScan, indexName := some "AUTO-INDEX", extra := flag "auto_index" }

/-- A lookup has the form of a search, and its description is all of it. -/
theorem readDetail_lookupDetail (keyword table index condition : String) :
    readDetail (lookupDetail keyword table index condition) =
      { searchStep (lookup keyword.toList table.toList index.toList condition.toList) with
        description := some (lookupDetail keyword table index condition) } := by
  have hform (keyword table index condition : List Char) :
      Form.ofDetail (lookup keyword table index condition) = .search := rfl
  rw [readDetail, toList_lookupDetail, trim_lookup, hform, ← toList_lookupDetail,
    String.ofList_toList]
  rfl

section Steps

variable {table index : String} (ht : TableName table) (hi : IsWord index.toList)
  (htable : '(' ∉ table.toList) (hindex : '(' ∉ index.toList) (condition : String)

include ht hi htable hindex

/-- The step of a lookup with `USING INDEX`, for any names and conditions. -/
theorem readDetail_lookup :
    readDetail (lookupDetail "USING INDEX" table index condition) =
      { (if looksAutomatic table index condition then automaticStep
          else if mentions condition.toList "USING COVERING INDEX" then
            { kind := .indexOnlyScan
              indexName := indexAfter? "COVERING INDEX" (condition.toList ++ [')']) }
          else { kind := .indexScan, indexName := some (indexRead table index) } : Step) with
        relation := some table
        indexCondition := some condition
        description := some (lookupDetail "USING INDEX" table index condition) } := by
  have hrelation := tableAfter?_lookup ht "USING INDEX".toList index.toList condition.toList
  have hcondition := condition?_lookup (by decide : '(' ∉ "USING INDEX".toList) htable hindex
    condition.toList
  have hself := mentions_lookup_self "USING INDEX" (fun _ => rfl) table.toList index.toList
    condition.toList
  rw [String.ofList_toList] at hcondition
  rw [readDetail_lookupDetail, searchStep, mentions_automatic_lookup _ _ _ _ rfl rfl, hrelation,
    hcondition, hself, mentions_usingCovering_lookup ht.word hi,
    indexAfter?_covering_lookup ht.word hi, indexAfter?_lookup ht.word hi htable hindex]
  split
  · rfl
  · split <;> rfl

/-- The step of a lookup with `USING COVERING INDEX`. -/
theorem readDetail_coveringLookup :
    readDetail (lookupDetail "USING COVERING INDEX" table index condition) =
      { (if looksAutomatic table index condition then automaticStep
          else { kind := .indexOnlyScan, indexName := some index } : Step) with
        relation := some table
        indexCondition := some condition
        description := some (lookupDetail "USING COVERING INDEX" table index condition) } := by
  have hrelation := tableAfter?_lookup ht "USING COVERING INDEX".toList index.toList
    condition.toList
  have hcondition := condition?_lookup (by decide : '(' ∉ "USING COVERING INDEX".toList) htable
    hindex condition.toList
  have hself := mentions_lookup_self "USING COVERING INDEX" (fun _ => rfl) table.toList
    index.toList condition.toList
  rw [String.ofList_toList] at hcondition
  rw [readDetail_lookupDetail, searchStep, mentions_automatic_lookup _ _ _ _ rfl rfl, hrelation,
    hcondition, hself, indexAfter?_coveringLookup ht.word hi hindex]
  split <;> rfl

end Steps

/-- A name without parentheses. -/
structure NoParentheses (name : String) : Prop where
  opening : '(' ∉ name.toList
  closing : ')' ∉ name.toList

/-- A step of a kind that has a table, an index and the condition on it. -/
structure LooksUp (step : Step) (kind : Kind) (table index condition : String) : Prop where
  kind_eq : step.kind = kind
  relation_eq : step.relation = some table
  indexName_eq : step.indexName = some index
  indexCondition_eq : step.indexCondition = some condition

/-- A lookup has the table and the condition of its description, whatever they are. It has the
index, and is of the kind that the keyword tells, unless one of the texts has the letters of an
index made for one query, or the condition those of the other keyword, or the name of the table
those of `INDEX`: what follows them is then read in the place of the index. -/
theorem indexLookup_readBack {table index : String} (ht : TableName table)
    (hi : IsWord index.toList) (htable : NoParentheses table) (hindex : NoParentheses index)
    (condition : String) :
    (∀ keyword ∈ ["USING INDEX", "USING COVERING INDEX"],
      (readDetail (lookupDetail keyword table index condition)).relation = some table ∧
        (readDetail (lookupDetail keyword table index condition)).indexCondition =
          some condition) ∧
    (LooksUp (readDetail (lookupDetail "USING INDEX" table index condition)) .indexScan table index
        condition ↔
      looksAutomatic table index condition = false ∧
        mentions condition.toList "USING COVERING INDEX" = false ∧
        indexRead table index = index) ∧
    (LooksUp (readDetail (lookupDetail "USING COVERING INDEX" table index condition)) .indexOnlyScan
        table index condition ↔
      looksAutomatic table index condition = false ∨ index = "AUTO-INDEX") := by
  have hplain := readDetail_lookup ht hi htable.opening hindex.opening condition
  have hcovering := readDetail_coveringLookup ht hi htable.opening hindex.opening condition
  refine ⟨fun keyword hkeyword => ?_, ?_, ?_⟩
  · -- table and condition, for either keyword
    rcases List.mem_cons.mp hkeyword with rfl | hkeyword
    · rw [hplain]
      exact ⟨rfl, rfl⟩
    · obtain rfl := List.mem_singleton.mp hkeyword
      rw [hcovering]
      exact ⟨rfl, rfl⟩
  · rw [hplain]
    cases looksAutomatic table index condition with
    | true => exact ⟨fun h => absurd h.kind_eq nofun, fun h => absurd h.1 nofun⟩
    | false =>
      -- the keyword of the other kind comes first, also where it is only in the condition
      cases mentions condition.toList "USING COVERING INDEX" with
      | true => exact ⟨fun h => absurd h.kind_eq nofun, fun h => absurd h.2.1 nofun⟩
      | false =>
        constructor
        · intro h
          exact ⟨rfl, rfl, Option.some.inj h.indexName_eq⟩
        · rintro ⟨-, -, hread⟩
          rw [hread]
          exact ⟨rfl, rfl, rfl, rfl⟩
  · rw [hcovering]
    cases looksAutomatic table index condition with
    | false => exact ⟨fun _ => .inl rfl, fun _ => ⟨rfl, rfl, rfl, rfl⟩⟩
    | true =>
      -- the kind is the same, so only the name tells the two indexes apart
      constructor
      · intro h
        exact .inr (Option.some.inj h.indexName_eq).symm
      · intro h
        obtain rfl := h.resolve_left nofun
        exact ⟨rfl, rfl, rfl, rfl⟩

/-- An ordinary lookup, whose index is found. -/
theorem indexLookup_readBack_messages :
    TableName "messages" ∧ IsWord "message_session".toList ∧ NoParentheses "messages" ∧
      NoParentheses "message_session" ∧
      LooksUp (readDetail (lookupDetail "USING INDEX" "messages" "message_session" "session_id=?"))
        .indexScan "messages" "message_session" "session_id=?" := by
  have ht : TableName "messages" := by decide
  have hi : IsWord "message_session".toList := by decide
  have htable : NoParentheses "messages" := ⟨by decide, by decide⟩
  have hindex : NoParentheses "message_session" := ⟨by decide, by decide⟩
  have hread := (indexLookup_readBack ht hi htable hindex "session_id=?").2.1
  exact ⟨ht, hi, htable, hindex, hread.mpr (by decide)⟩

/-- A table whose name has the keyword of an index in it: the index is read from that name. -/
theorem indexLookup_misread_indexEntries :
    TableName "index_entries" ∧ IsWord "entry_key".toList ∧ NoParentheses "index_entries" ∧
      NoParentheses "entry_key" ∧
      (readDetail (lookupDetail "USING INDEX" "index_entries" "entry_key" "key=?")).indexName =
        some "_entries" := by
  have ht : TableName "index_entries" := by decide
  have hi : IsWord "entry_key".toList := by decide
  have htable : NoParentheses "index_entries" := ⟨by decide, by decide⟩
  have hindex : NoParentheses "entry_key" := ⟨by decide, by decide⟩
  refine ⟨ht, hi, htable, hindex, ?_⟩
  rw [readDetail_lookup ht hi htable.opening hindex.opening]
  decide

end ScanAudit.Plan
