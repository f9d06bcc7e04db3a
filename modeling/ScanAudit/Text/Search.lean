/-!
# Looking for a text inside a text

Occurrences are exact, character by character.

* `dropStart?`, `dropEnd?` — what is left once a given beginning or end is taken off
* `contains` — whether a text occurs anywhere
* `splitOn` — the pieces between the leftmost occurrences that do not overlap
* `betweenOuter?` — what stands between the first of one character and the last of another
-/

namespace ScanAudit.Text

def dropStart? (start cs : List Char) : Option (List Char) :=
  if start.isPrefixOf cs then some (cs.drop start.length) else none

def dropEnd? (ending cs : List Char) : Option (List Char) :=
  (dropStart? ending.reverse cs.reverse).map List.reverse

def contains (pattern : List Char) : List Char → Bool
  | [] => pattern.isEmpty
  | c :: cs => pattern.isPrefixOf (c :: cs) || contains pattern cs

/-- The pieces of a text from which the first `skip` characters, the rest of a separator already
found, are still to be dropped. -/
def splitAfter (separator : List Char) : Nat → List Char → List (List Char)
  | _, [] => [[]]
  | skip + 1, _ :: cs => splitAfter separator skip cs
  | 0, c :: cs =>
    if separator.isPrefixOf (c :: cs) then [] :: splitAfter separator (separator.length - 1) cs
    else (splitAfter separator 0 cs).modifyHead (c :: ·)

/-- The pieces of a text between the occurrences of a separator, which are looked for from the
left and do not overlap. A text without a separator is one piece. -/
def splitOn (separator cs : List Char) : List (List Char) :=
  splitAfter separator 0 cs

/-- The text up to the last occurrence of a character, which is left out. -/
def beforeLast? (last : Char) (cs : List Char) : Option (List Char) :=
  match cs.reverse.dropWhile (· != last) with
  | [] => none
  | _ :: before => some before.reverse

/-- The text strictly between the first occurrence of one character and the last of another;
none unless they occur in that order. -/
def betweenOuter? (first last : Char) (cs : List Char) : Option (List Char) :=
  match cs.dropWhile (· != first) with
  | [] => none
  | _ :: after => beforeLast? last after

/-- What is left is what the beginning has to be put in front of. -/
theorem dropStart?_eq_some_iff {start cs rest : List Char} :
    dropStart? start cs = some rest ↔ cs = start ++ rest := by
  unfold dropStart?
  split
  · next h =>
    obtain ⟨t, rfl⟩ := List.isPrefixOf_iff_prefix.mp h
    simp
  · next h =>
    constructor
    · intro hnone; cases hnone
    · rintro rfl
      exact absurd (List.isPrefixOf_iff_prefix.mpr ⟨rest, rfl⟩) h

/-- What is left is what the end has to be put behind: by `dropStart?_eq_some_iff`, read backwards.
-/
theorem dropEnd?_eq_some_iff {ending cs rest : List Char} :
    dropEnd? ending cs = some rest ↔ cs = rest ++ ending := by
  simp only [dropEnd?, Option.map_eq_some_iff, dropStart?_eq_some_iff]
  constructor
  · rintro ⟨r, hr, rfl⟩
    have := congrArg List.reverse hr
    simpa using this
  · rintro rfl
    exact ⟨rest.reverse, by simp, by simp⟩

theorem dropStart?_eq_none_iff {start cs : List Char} :
    dropStart? start cs = none ↔ ¬start <+: cs := by
  rw [dropStart?, ite_eq_right_iff, ← List.isPrefixOf_iff_prefix]
  simp

theorem dropEnd?_eq_none_iff {ending cs : List Char} :
    dropEnd? ending cs = none ↔ ¬ending <:+ cs := by
  rw [dropEnd?, Option.map_eq_none_iff, dropStart?_eq_none_iff, List.reverse_prefix]

/-- An occurrence is a contiguous part, with anything before it and behind it. -/
theorem contains_iff {pattern cs : List Char} : contains pattern cs = true ↔ pattern <:+: cs := by
  induction cs with
  | nil => cases pattern <;> simp [contains]
  | cons c cs ih =>
    simp only [contains, Bool.or_eq_true, List.isPrefixOf_iff_prefix, ih, List.infix_cons_iff]

/-- Characters to be skipped may as well be dropped at once. -/
theorem splitAfter_eq_splitOn_drop (separator : List Char) (skip : Nat) (cs : List Char) :
    splitAfter separator skip cs = splitOn separator (cs.drop skip) := by
  induction cs generalizing skip with
  | nil => cases skip <;> rfl
  | cons c cs ih =>
    cases skip with
    | zero => rfl
    | succ skip => simpa [splitAfter] using ih skip

/-- There is always a piece, if only the empty one. -/
theorem splitOn_ne_nil (separator cs : List Char) : splitOn separator cs ≠ [] := by
  induction cs with
  | nil => simp [splitOn, splitAfter]
  | cons c cs ih =>
    unfold splitOn splitAfter
    split
    · simp
    · -- a character that is kept goes to the first piece, which is there by induction
      intro h
      cases hs : splitAfter separator 0 cs with
      | nil => exact ih hs
      | cons p ps => simp [hs] at h

end ScanAudit.Text
