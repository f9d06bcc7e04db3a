import ScanAudit.Text.Search

/-!
# Cuts at a separator

Splitting cuts a text where the separator first occurs, and goes on behind that occurrence. The
cuts are said here without the course of the search: an occurrence is the first one if no other
begins before it, and a text without an occurrence is one piece.

* `FirstCut` — a text around the first occurrence of a separator
* `exists_firstCut` — every occurrence gives a first one
* `Cuts` — a text with the pieces that the separator cuts it into
* `splitOn_eq_iff` — splitting finds these pieces and no others
* `Occurrences` — how often a separator occurs in a text without overlaps
* `occurrences_iff` — there is one piece more than that
-/

namespace ScanAudit.Text

/-- The separator occurs behind `before` and in front of `after`, and no occurrence begins
earlier. -/
structure FirstCut (separator cs before after : List Char) : Prop where
  around : cs = before ++ separator ++ after
  first : ∀ b a, cs = b ++ separator ++ a → before.length ≤ b.length

variable {separator cs before after : List Char} {c : Char}

theorem firstCut_nil (separator after : List Char) :
    FirstCut separator (separator ++ after) [] after :=
  ⟨rfl, fun _ _ _ => Nat.zero_le _⟩

/-- A cut that is not at the front of the text is a cut of its tail. -/
theorem firstCut_cons_iff :
    FirstCut separator (c :: cs) (c :: before) after ↔
      ¬separator <+: c :: cs ∧ FirstCut separator cs before after := by
  constructor
  · intro h
    have htail : cs = before ++ separator ++ after := by simpa using h.around
    refine ⟨?_, htail, ?_⟩
    · -- an occurrence at the front would be an earlier one
      rintro ⟨a, ha⟩
      have hle := h.first [] a ha.symm
      simp at hle
    · intro b a hba
      have hle := h.first (c :: b) a (by rw [hba]; rfl)
      simpa using hle
  · -- an occurrence is at the front, which is excluded, or in the tail
    rintro ⟨hfront, h⟩
    refine ⟨by rw [h.around]; rfl, ?_⟩
    intro b a hba
    cases b with
    | nil => exact absurd ⟨a, hba.symm⟩ hfront
    | cons d b =>
      have htail : cs = b ++ separator ++ a := (List.cons.inj hba).2
      have hle := h.first b a htail
      simpa using hle

/-- The first occurrence is found from the front: it is there, or it is that of the tail. -/
theorem exists_firstCut (h : separator <:+: cs) :
    ∃ before after, FirstCut separator cs before after := by
  induction cs with
  | nil =>
    obtain rfl : separator = [] := List.infix_nil.mp h
    exact ⟨[], [], firstCut_nil [] []⟩
  | cons c cs ih =>
    by_cases hfront : separator <+: c :: cs
    · obtain ⟨after, hafter⟩ := hfront
      exact ⟨[], after, hafter ▸ firstCut_nil separator after⟩
    · have htail : separator <:+: cs := (List.infix_cons_iff.mp h).resolve_left hfront
      obtain ⟨before, after, hcut⟩ := ih htail
      exact ⟨c :: before, after, firstCut_cons_iff.mpr ⟨hfront, hcut⟩⟩

/-! ## The course of the search -/

theorem splitOn_append (h : separator ≠ []) (rest : List Char) :
    splitOn separator (separator ++ rest) = [] :: splitOn separator rest := by
  obtain ⟨s, ss, rfl⟩ := List.exists_cons_of_ne_nil h
  have hfront : (s :: ss).isPrefixOf (s :: (ss ++ rest)) = true :=
    List.isPrefixOf_iff_prefix.mpr ⟨rest, rfl⟩
  rw [splitOn, List.cons_append, splitAfter, if_pos hfront, splitAfter_eq_splitOn_drop]
  simp

/-- Where no separator begins, the character belongs to the first piece. -/
theorem splitOn_cons_of_not_isPrefix (h : ¬separator <+: c :: cs) :
    splitOn separator (c :: cs) = (splitOn separator cs).modifyHead (c :: ·) := by
  have hfront : ¬separator.isPrefixOf (c :: cs) = true :=
    fun hp => h (List.isPrefixOf_iff_prefix.mp hp)
  rw [splitOn, splitAfter, if_neg hfront, splitOn]

theorem splitOn_of_not_isInfix (h : ¬separator <:+: cs) : splitOn separator cs = [cs] := by
  induction cs with
  | nil => rfl
  | cons c cs ih =>
    have hparts := mt List.infix_cons_iff.mpr h
    rw [not_or] at hparts
    rw [splitOn_cons_of_not_isPrefix hparts.1, ih hparts.2]
    rfl

/-- Splitting cuts at the first occurrence and goes on behind it. By induction on what stands
before: each of its characters is passed, as no separator begins there. -/
theorem FirstCut.splitOn_eq (hsep : separator ≠ []) (h : FirstCut separator cs before after) :
    splitOn separator cs = before :: splitOn separator after := by
  induction before generalizing cs with
  | nil =>
    obtain rfl : cs = separator ++ after := h.around
    exact splitOn_append hsep after
  | cons c before ih =>
    obtain rfl : cs = c :: (before ++ separator ++ after) := h.around
    obtain ⟨hfront, htail⟩ := firstCut_cons_iff.mp h
    rw [splitOn_cons_of_not_isPrefix hfront, ih htail]
    rfl

/-! ## The pieces -/

/-- The pieces of a text between the leftmost occurrences of a separator that do not overlap: the
text itself if there is none, else what stands before the first one and the pieces of what stands
behind it. -/
inductive Cuts (separator : List Char) : List Char → List (List Char) → Prop
  | whole {cs : List Char} (h : ¬separator <:+: cs) : Cuts separator cs [cs]
  | cut {cs before after : List Char} {pieces : List (List Char)}
      (h : FirstCut separator cs before after) (hrest : Cuts separator after pieces) :
      Cuts separator cs (before :: pieces)

/-- By induction on the length, as every cut leaves a shorter text. -/
theorem cuts_splitOn (hsep : separator ≠ []) (cs : List Char) :
    Cuts separator cs (splitOn separator cs) := by
  by_cases h : separator <:+: cs
  · obtain ⟨before, after, hcut⟩ := exists_firstCut h
    have hshorter : after.length < cs.length := by
      -- what is behind a cut is shorter by the separator at least
      have hpos : 0 < separator.length := List.length_pos_iff.mpr hsep
      rw [hcut.around, List.length_append, List.length_append]
      omega
    rw [hcut.splitOn_eq hsep]
    exact .cut hcut (cuts_splitOn hsep after)
  · rw [splitOn_of_not_isInfix h]
    exact .whole h
termination_by cs.length

/-- The pieces are determined, since the first occurrence is. -/
theorem splitOn_eq_iff (hsep : separator ≠ []) {pieces : List (List Char)} :
    splitOn separator cs = pieces ↔ Cuts separator cs pieces := by
  constructor
  · rintro rfl
    exact cuts_splitOn hsep cs
  · intro h
    induction h with
    | whole h => exact splitOn_of_not_isInfix h
    | cut h _ ih => rw [h.splitOn_eq hsep, ih]

/-- There are two pieces if no separator is left behind the first. -/
theorem cuts_pair_iff : Cuts separator cs [before, after] ↔
    FirstCut separator cs before after ∧ ¬separator <:+: after := by
  constructor
  · rintro (_ | ⟨hcut, hrest⟩)
    cases hrest with
    | whole h => exact ⟨hcut, h⟩
    | cut _ hnone => cases hnone
  · rintro ⟨hcut, h⟩
    exact .cut hcut (.whole h)

/-! ## The number of occurrences -/

/-- How often a separator occurs in a text, from the left and without overlaps: each occurrence is
the first one behind the end of the one before it. -/
inductive Occurrences (separator : List Char) : List Char → Nat → Prop
  | none {cs : List Char} (h : ¬separator <:+: cs) : Occurrences separator cs 0
  | next {cs before after : List Char} {n : Nat} (h : FirstCut separator cs before after)
      (hrest : Occurrences separator after n) : Occurrences separator cs (n + 1)

/-- The cuts are the occurrences, and leave one piece more. -/
theorem Cuts.exists_occurrences {pieces : List (List Char)} (h : Cuts separator cs pieces) :
    ∃ n, pieces.length = n + 1 ∧ Occurrences separator cs n := by
  induction h with
  | whole h => exact ⟨0, rfl, .none h⟩
  | cut h _ ih =>
    obtain ⟨n, hlength, hrest⟩ := ih
    exact ⟨n + 1, congrArg (· + 1) hlength, .next h hrest⟩

/-- And the other way round: each occurrence is a cut. -/
theorem Occurrences.exists_cuts {n : Nat} (h : Occurrences separator cs n) :
    ∃ pieces, pieces.length = n + 1 ∧ Cuts separator cs pieces := by
  induction h with
  | none h => exact ⟨_, rfl, .whole h⟩
  | next h _ ih =>
    obtain ⟨pieces, hlength, hrest⟩ := ih
    exact ⟨_, congrArg (· + 1) hlength, .cut h hrest⟩

/-- So the number of pieces tells how often the separator occurs. -/
theorem occurrences_iff (hsep : separator ≠ []) {n : Nat} :
    Occurrences separator cs n ↔ (splitOn separator cs).length = n + 1 := by
  constructor
  · intro h
    obtain ⟨pieces, hlength, hcuts⟩ := h.exists_cuts
    rw [(splitOn_eq_iff hsep).mpr hcuts, hlength]
  · intro h
    -- splitting gives some number of occurrences, and the length says which
    obtain ⟨m, hlength, hoccurrences⟩ := (cuts_splitOn hsep cs).exists_occurrences
    obtain rfl : m = n := Nat.succ.inj (hlength.symm.trans h)
    exact hoccurrences

/-- A separator that is not empty occurs a certain number of times. -/
theorem exists_occurrences (hsep : separator ≠ []) (cs : List Char) :
    ∃ n, Occurrences separator cs n := by
  obtain ⟨n, -, h⟩ := (cuts_splitOn hsep cs).exists_occurrences
  exact ⟨n, h⟩

theorem Occurrences.exists_cuts_pair (h : Occurrences separator cs 1) :
    ∃ before after, Cuts separator cs [before, after] := by
  obtain _ | ⟨hcut, hrest⟩ := h
  cases hrest with
  | none h => exact ⟨_, _, .cut hcut (.whole h)⟩

end ScanAudit.Text
