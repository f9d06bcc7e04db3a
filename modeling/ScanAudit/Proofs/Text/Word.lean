import Mathlib.Data.List.DropRight
import ScanAudit.Proofs.Text.Keyword
import ScanAudit.Proofs.Text.Numeral
import ScanAudit.Text.Search

/-!
# Words

A word is a text without blanks that is not empty. The first word of a text is the word that a blank
or the end follows, and a text that begins and ends with a word has nothing to be trimmed.

* `IsWord` — a word
* `IsWord.firstWord_eq`, `IsWord.firstWord_append`, `isWord_firstWord` — the first word of a text
* `trim_append` — a text between two words
* `trimEnd`, `trim_word_append` — a text that begins with a word
* `trim_of_suffix`, `firstWord_trim` — parts of a text without the blanks around it
* `beforeLast?_append`, `betweenOuter?_eq_some_iff` — a text before a character, or between two of
  them
-/

namespace ScanAudit.Text

structure IsWord (cs : List Char) : Prop where
  ne_nil : cs ≠ []
  not_blank : ∀ c ∈ cs, isBlank c = false

theorem isWord_iff {cs : List Char} : IsWord cs ↔ cs ≠ [] ∧ cs.any isBlank = false := by
  rw [List.any_eq_false]
  constructor
  · intro h
    exact ⟨h.ne_nil, fun c hc => Bool.eq_false_iff.mp (h.not_blank c hc)⟩
  · rintro ⟨hne, hblank⟩
    exact ⟨hne, fun c hc => Bool.eq_false_iff.mpr (hblank c hc)⟩

-- by a test of the list, as all characters can be gone through too
instance (cs : List Char) : Decidable (IsWord cs) :=
  decidable_of_iff' _ isWord_iff

/-- A blank is not in a word, and no letter of a word becomes one in upper case. -/
theorem IsWord.not_mem_upper {cs : List Char} (h : IsWord cs) {d : Char} (hd : isBlank d = true) :
    d ∉ upper cs := by
  intro hmem
  obtain ⟨c, hc, rfl⟩ := List.mem_map.mp hmem
  rw [isBlank_toUpper, h.not_blank c hc] at hd
  cases hd

theorem isBlank_space : isBlank ' ' = true := by decide

theorem isWord_firstWord {cs : List Char} (h : firstWord cs ≠ []) : IsWord (firstWord cs) :=
  ⟨h, fun c hc => by simpa using List.mem_takeWhile_imp hc⟩

theorem firstWord_isInfix (cs : List Char) : firstWord cs <:+: cs :=
  (List.takeWhile_prefix _).isInfix.trans (List.dropWhile_suffix _).isInfix

theorem firstWord_cons_of_blank {c : Char} (hc : isBlank c = true) (cs : List Char) :
    firstWord (c :: cs) = firstWord cs := by
  rw [firstWord, dropBlanks, List.dropWhile_cons_of_pos hc, firstWord, dropBlanks]

/-- A word ends where no further character belongs to it. -/
theorem IsWord.firstWord_append_of_takeWhile {word rest : List Char} (h : IsWord word)
    (hrest : rest.takeWhile (!isBlank ·) = []) : firstWord (word ++ rest) = word := by
  have hword : ∀ x ∈ word, (!isBlank x) = true := fun x hx => by rw [h.not_blank x hx]; rfl
  rw [firstWord, dropBlanks_append_of_not_blank h.ne_nil h.not_blank,
    List.takeWhile_append_of_pos hword, hrest, List.append_nil]

/-- A blank ends a word. -/
theorem IsWord.firstWord_append {word : List Char} (h : IsWord word) {c : Char}
    (hc : isBlank c = true) (rest : List Char) : firstWord (word ++ c :: rest) = word :=
  h.firstWord_append_of_takeWhile (List.takeWhile_cons_of_neg (by simp [hc]))

theorem IsWord.firstWord_eq {word : List Char} (h : IsWord word) : firstWord word = word := by
  have hend := h.firstWord_append_of_takeWhile (List.takeWhile_nil)
  rwa [List.append_nil] at hend

/-- A text that begins and ends with a word has nothing to trim. -/
theorem trim_append (front middle back : List Char) (hfront : IsWord front) (hback : IsWord back) :
    trim (front ++ middle ++ back) = front ++ middle ++ back := by
  -- read backwards, the text begins with a word too
  have hne : back.reverse ≠ [] := by simpa using hback.ne_nil
  have hblank : ∀ c ∈ back.reverse, isBlank c = false :=
    fun c hc => hback.not_blank c (List.mem_reverse.mp hc)
  rw [trim, List.append_assoc, dropBlanks_append_of_not_blank hfront.ne_nil hfront.not_blank,
    ← List.append_assoc, List.reverse_append, dropBlanks_append_of_not_blank hne hblank,
    ← List.reverse_append, List.reverse_reverse]

/-! ## The blanks at the end -/

/-- A text without the blanks at its end. -/
def trimEnd (cs : List Char) : List Char :=
  cs.rdropWhile isBlank

/-- A character that is not blank stops the dropping. -/
theorem dropBlanks_ne_nil {cs : List Char} (h : ∃ c ∈ cs, isBlank c = false) :
    dropBlanks cs ≠ [] := by
  obtain ⟨c, hc, hblank⟩ := h
  intro hnil
  rw [List.dropWhile_eq_nil_iff.mp hnil c hc] at hblank
  cases hblank

/-- Blanks are dropped from the first part alone if something of it is left. -/
theorem dropBlanks_append {cs : List Char} (h : dropBlanks cs ≠ []) (ds : List Char) :
    dropBlanks (cs ++ ds) = dropBlanks cs ++ ds := by
  have hempty : ¬(cs.dropWhile isBlank).isEmpty = true := by
    rw [List.isEmpty_iff]
    exact h
  rw [dropBlanks, List.dropWhile_append, if_neg hempty, dropBlanks]

/-- Blanks at the end are dropped from the last part alone if something of it is left. -/
theorem trimEnd_append {cs : List Char} (h : ∃ c ∈ cs, isBlank c = false) (front : List Char) :
    trimEnd (front ++ cs) = front ++ trimEnd cs := by
  have hreverse : dropBlanks cs.reverse ≠ [] := by
    apply dropBlanks_ne_nil
    simpa using h
  show (dropBlanks (front ++ cs).reverse).reverse = front ++ (dropBlanks cs.reverse).reverse
  rw [List.reverse_append, dropBlanks_append hreverse, List.reverse_append, List.reverse_reverse]

/-- If a text begins with a word, only the blanks at its end are taken off. -/
theorem trim_word_append {word : List Char} (hword : IsWord word) {cs : List Char}
    (h : ∃ c ∈ cs, isBlank c = false) (middle : List Char) :
    trim (word ++ (middle ++ cs)) = word ++ (middle ++ trimEnd cs) := by
  rw [trim, dropBlanks_append_of_not_blank hword.ne_nil hword.not_blank, ← List.append_assoc]
  show trimEnd (word ++ middle ++ cs) = word ++ (middle ++ trimEnd cs)
  rw [trimEnd_append h, List.append_assoc]

theorem trim_of_suffix {part cs : List Char} (hcs : trimEnd cs = cs) (h : part <:+ cs) :
    trim part = dropBlanks part := by
  have hpart : dropBlanks part <:+ cs := (List.dropWhile_suffix _).trans h
  apply List.rdropWhile_eq_self_iff.mpr
  intro hne
  rw [hpart.getLast hne]
  exact List.rdropWhile_eq_self_iff.mp hcs (hpart.ne_nil hne)

theorem trimEnd_trim (cs : List Char) : trimEnd (trim cs) = trim cs :=
  List.rdropWhile_idempotent _ _

/-- Blanks behind a text do not matter for its first word, as they only end it or stand behind its
end. -/
theorem firstWord_append_of_blank {blanks : List Char} (h : ∀ c ∈ blanks, isBlank c = true)
    (cs : List Char) : firstWord (cs ++ blanks) = firstWord cs := by
  have hdrop : blanks.dropWhile isBlank = [] := List.dropWhile_eq_nil_iff.mpr h
  have htake : blanks.takeWhile (!isBlank ·) = [] := by
    cases blanks with
    | nil => rfl
    | cons c blanks => exact List.takeWhile_cons_of_neg (by simp [h c (.head _)])
  rw [firstWord, dropBlanks, List.dropWhile_append, hdrop, firstWord, dropBlanks]
  split
  · -- the text is blank, and has no word
    next hempty => rw [List.isEmpty_iff.mp hempty]
  · rw [List.takeWhile_append, htake, List.append_nil]
    split
    · next hall => exact ((List.takeWhile_prefix _).eq_of_length hall).symm
    · rfl

theorem firstWord_trim (cs : List Char) : firstWord (trim cs) = firstWord cs := by
  obtain ⟨left, right, hcs, hleft, hright⟩ := padded_trim cs
  conv_rhs =>
    rw [hcs, firstWord_append_of_blank hright, firstWord, dropBlanks_append_of_blank hleft]
  rfl

theorem dropBlanks_prefix {cs ds : List Char} (h : cs <+: ds) :
    dropBlanks cs <+: dropBlanks ds := by
  obtain ⟨rest, rfl⟩ := h
  by_cases hnil : dropBlanks cs = []
  · rw [hnil]
    exact List.nil_prefix
  · rw [dropBlanks_append hnil]
    exact List.prefix_append _ _

/-! ## Between two characters -/

/-- The test of a search for a character, on a text that lacks it. -/
theorem bne_of_not_mem {d : Char} {cs : List Char} (h : d ∉ cs) : ∀ c ∈ cs, (c != d) = true := by
  intro c hc
  exact bne_iff_ne.mpr (ne_of_mem_of_not_mem hc h)

/-- The last occurrence is the one with no other behind it. -/
theorem beforeLast?_append {last : Char} {after : List Char} (h : last ∉ after)
    (before : List Char) : beforeLast? last (before ++ last :: after) = some before := by
  have hafter : last ∉ after.reverse := fun hmem => h (List.mem_reverse.mp hmem)
  rw [beforeLast?, List.reverse_append, List.reverse_cons, List.append_assoc,
    List.dropWhile_append_of_pos (bne_of_not_mem hafter), List.singleton_append,
    List.dropWhile_cons_of_neg (by simp)]
  simp

theorem beforeLast?_of_not_mem {last : Char} {cs : List Char} (h : last ∉ cs) :
    beforeLast? last cs = none := by
  have hnone : cs.reverse.dropWhile (· != last) = [] := by
    refine List.dropWhile_eq_nil_iff.mpr (bne_of_not_mem ?_)
    exact fun hmem => h (List.mem_reverse.mp hmem)
  rw [beforeLast?, hnone]

/-- Every occurrence of a character gives a last one. -/
theorem exists_append_last {d : Char} {cs : List Char} (h : d ∈ cs) :
    ∃ before after, cs = before ++ d :: after ∧ d ∉ after := by
  obtain ⟨after, before, hcs, hafter⟩ := List.eq_append_cons_of_mem (List.mem_reverse.mpr h)
  refine ⟨before.reverse, after.reverse, ?_, fun hmem => hafter (List.mem_reverse.mp hmem)⟩
  rw [← List.reverse_reverse cs, hcs]
  simp

/-- A text in front that lacks the first character is passed over. -/
theorem betweenOuter?_append_left {first last : Char} {front : List Char} (h : first ∉ front)
    (rest : List Char) :
    betweenOuter? first last (front ++ rest) = betweenOuter? first last rest := by
  rw [betweenOuter?, List.dropWhile_append_of_pos (bne_of_not_mem h), betweenOuter?]

/-- The first occurrence of the first character is passed, and the last of the other is looked for
behind it. -/
theorem betweenOuter?_append_cons {first last : Char} {before : List Char} (h : first ∉ before)
    (rest : List Char) :
    betweenOuter? first last (before ++ first :: rest) = beforeLast? last rest := by
  rw [betweenOuter?_append_left h, betweenOuter?, List.dropWhile_cons_of_neg (by simp)]

/-- The first of one character and the last of another are those around the inside, if neither the
text before nor the one behind has them. -/
theorem betweenOuter?_append {first last : Char} {before after : List Char}
    (hbefore : first ∉ before) (hafter : last ∉ after) (inside : List Char) :
    betweenOuter? first last (before ++ first :: (inside ++ last :: after)) = some inside := by
  rw [betweenOuter?_append_cons hbefore]
  exact beforeLast?_append hafter inside

/-- What is enclosed, said without the two searches: the first character does not stand before it,
and the last one does not stand behind. -/
theorem betweenOuter?_eq_some_iff {first last : Char} {cs inside : List Char} :
    betweenOuter? first last cs = some inside ↔
      ∃ before after, cs = before ++ first :: (inside ++ last :: after) ∧
        first ∉ before ∧ last ∉ after := by
  constructor
  · intro h
    by_cases hfirst : first ∈ cs
    · obtain ⟨before, rest, rfl, hbefore⟩ := List.eq_append_cons_of_mem hfirst
      rw [betweenOuter?_append_cons hbefore] at h
      by_cases hlast : last ∈ rest
      · obtain ⟨between, after, rfl, hafter⟩ := exists_append_last hlast
        -- the last occurrence is the one that the search finds
        obtain rfl : between = inside :=
          Option.some.inj ((beforeLast?_append hafter _).symm.trans h)
        exact ⟨before, after, rfl, hbefore, hafter⟩
      · rw [beforeLast?_of_not_mem hlast] at h
        cases h
    · rw [betweenOuter?, List.dropWhile_eq_nil_iff.mpr (bne_of_not_mem hfirst)] at h
      cases h
  · rintro ⟨before, after, rfl, hbefore, hafter⟩
    exact betweenOuter?_append hbefore hafter inside

end ScanAudit.Text
