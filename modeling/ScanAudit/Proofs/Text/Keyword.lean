import ScanAudit.Text.Blank
import ScanAudit.Text.Keyword

/-!
# Keywords in texts of several parts

Where a keyword first occurs in a text can be told from the text's parts, if they are kept apart by
a character that a keyword cannot run across: either the keyword does not have it, or the keyword
has it and what follows it in the text is not what follows it in the keyword.

* `toNat_toUpper`, `isBlank_toUpper` — a character in upper case
* `prefix_of_prefix_upper` — a keyword that is written in upper case
* `startsWith_of_not_mem`, `occurs_of_not_mem` — a text that lacks a character of the keyword
* `after?_append_cons`, `occurs_append_cons` — a character that is not in the keyword
* `startsWith_append_append` — a keyword and a text that are cut at the same character
* `after?_word_append`, `occurs_word_append` — a part that only the keyword's first part can end
* `apart`, `after?_append_of_apart` — a front part in which the keyword cannot begin
-/

namespace ScanAudit.Text

/-- The code of a character in upper case: 32 less for the letters, and the same for all others. -/
theorem toNat_toUpper (c : Char) :
    c.toUpper.toNat = if 97 ≤ c.toNat ∧ c.toNat ≤ 122 then c.toNat - 32 else c.toNat := by
  have hiff : ('a'.val ≤ c.val ∧ c.val ≤ 'z'.val) ↔ 97 ≤ c.toNat ∧ c.toNat ≤ 122 := Iff.rfl
  unfold Char.toUpper
  split
  · next h =>
    obtain ⟨hlow, hhigh⟩ := hiff.mp h
    rw [if_pos ⟨hlow, hhigh⟩]
    show (c.val + ('A'.val - 'a'.val)).toNat = c.val.toNat - 32
    rw [UInt32.toNat_add]
    -- 32 less, as a sum that runs over
    show (c.toNat + 4294967264) % 2 ^ 32 = c.toNat - 32
    omega
  · next h => rw [if_neg (mt hiff.mpr h)]

theorem isBlank_toUpper (c : Char) : isBlank c.toUpper = isBlank c := by
  rw [Bool.eq_iff_iff]
  simp only [isBlank, blankRanges, List.any_cons, List.any_nil, Bool.or_eq_true,
    Bool.and_eq_true, decide_eq_true_eq, Bool.or_false, toNat_toUpper]
  split <;> omega

/-- A character that is no letter in lower case stays. -/
theorem toUpper_of_isLower_eq_false {c : Char} (h : c.isLower = false) : c.toUpper = c := by
  apply Char.toNat_inj.mp
  have hnot : ¬(97 ≤ c.toNat ∧ c.toNat ≤ 122) := by
    intro hrange
    have hlower : c.isLower = true := by
      show (decide (97 ≤ c.toNat) && decide (c.toNat ≤ 122)) = true
      rw [Bool.and_eq_true, decide_eq_true_iff, decide_eq_true_iff]
      exact hrange
    rw [h] at hlower
    cases hlower
  rw [toNat_toUpper, if_neg hnot]

/-- A keyword begins a text as it is written, if no letter of the text is in lower case there. -/
theorem prefix_of_prefix_upper {keyword cs : List Char} (h : keyword <+: upper cs)
    (hupper : ∀ c ∈ cs.take keyword.length, c.isLower = false) : keyword <+: cs := by
  have hsame : upper (cs.take keyword.length) = cs.take keyword.length := by
    rw [upper, List.map_congr_left fun c hc => toUpper_of_isLower_eq_false (hupper c hc),
      List.map_id']
  have hkeyword : keyword = cs.take keyword.length := by
    rw [← hsame, upper, List.map_take]
    exact List.prefix_iff_eq_take.mp h
  rw [hkeyword]
  exact List.take_prefix _ _

namespace Keyword

theorem length_le_of_startsWith {keyword cs : List Char} (h : startsWith keyword cs = true) :
    keyword.length ≤ cs.length := by
  rw [startsWith_eq_isPrefixOf_upper, List.isPrefixOf_iff_prefix] at h
  have hle := h.length_le
  rwa [upper, List.length_map] at hle

theorem startsWith_nil {keyword : List Char} (hne : keyword ≠ []) :
    startsWith keyword [] = false := by
  obtain ⟨k, keyword, rfl⟩ := List.exists_cons_of_ne_nil hne
  rfl

theorem after?_nil {keyword : List Char} (hne : keyword ≠ []) : after? keyword [] = none := by
  rw [after?, if_neg (by simpa using hne)]

/-- Where a keyword does not begin, it is looked for further down. -/
theorem after?_cons_of_not_startsWith {keyword cs : List Char} {c : Char}
    (h : startsWith keyword (c :: cs) = false) : after? keyword (c :: cs) = after? keyword cs := by
  rw [after?, h]
  rfl

theorem suffix_of_after? {keyword cs rest : List Char} (h : after? keyword cs = some rest) :
    rest <:+ cs := by
  induction cs with
  | nil =>
    rw [after?] at h
    split at h
    · cases h; exact List.suffix_rfl
    · cases h
  | cons c cs ih =>
    rw [after?] at h
    split at h
    · -- the keyword is here, and the rest is behind it
      cases h; exact List.drop_suffix _ _
    · exact (ih h).trans (List.suffix_cons c cs)

theorem occurs_nil {keyword : List Char} (hne : keyword ≠ []) : occurs keyword [] = false := by
  rw [← isSome_after?_eq_occurs, after?_nil hne]
  rfl

theorem occurs_append_of_occurs {keyword b : List Char} (h : occurs keyword b = true)
    (a : List Char) : occurs keyword (a ++ b) = true := by
  induction a with
  | nil => exact h
  | cons c a ih => rw [List.cons_append, occurs, ih, Bool.or_true]

/-- A text without one of the keyword's characters does not begin with the keyword, nor does it have
the keyword anywhere. -/
theorem startsWith_of_not_mem {keyword cs : List Char} {k : Char} (hk : k ∈ keyword)
    (hcs : k ∉ upper cs) : startsWith keyword cs = false := by
  rw [startsWith_eq_isPrefixOf_upper, Bool.eq_false_iff]
  intro hprefix
  exact hcs ((List.isPrefixOf_iff_prefix.mp hprefix).subset hk)

/-- By induction over the text, none of whose ends has the character. -/
theorem occurs_of_not_mem {keyword cs : List Char} {k : Char} (hk : k ∈ keyword)
    (hcs : k ∉ upper cs) : occurs keyword cs = false := by
  induction cs with
  | nil => exact occurs_nil (List.ne_nil_of_mem hk)
  | cons c cs ih =>
    obtain ⟨-, hrest⟩ := List.ne_and_not_mem_of_not_mem_cons hcs
    rw [occurs, startsWith_of_not_mem hk hcs, ih hrest, Bool.or_false]

/-! ## A character that is not in the keyword -/

/-- A keyword that begins a text ends before a character that it does not have. -/
theorem startsWith_append_cons {keyword : List Char} {c : Char} (hc : c.toUpper ∉ keyword)
    (a b : List Char) : startsWith keyword (a ++ c :: b) = startsWith keyword a := by
  induction keyword generalizing a with
  | nil => simp [startsWith]
  | cons k keyword ih =>
    obtain ⟨hk, hrest⟩ := List.ne_and_not_mem_of_not_mem_cons hc
    cases a with
    | nil => simp [startsWith, Ne.symm hk]
    | cons x a => rw [List.cons_append, startsWith, startsWith, ih hrest]

/-- The first occurrence is before the character, or it is the first one behind it. -/
theorem after?_append_cons {keyword : List Char} {c : Char} (hne : keyword ≠ [])
    (hc : c.toUpper ∉ keyword) (a b : List Char) :
    after? keyword (a ++ c :: b) =
      ((after? keyword a).map (· ++ c :: b)).or (after? keyword b) := by
  induction a with
  | nil =>
    have hhere : startsWith keyword (c :: b) = false := by
      -- no occurrence begins with the character
      rw [← startsWith_nil hne]
      exact startsWith_append_cons hc [] b
    rw [List.nil_append, after?_cons_of_not_startsWith hhere, after?_nil hne]
    rfl
  | cons x a ih =>
    have hhere : startsWith keyword (x :: (a ++ c :: b)) = startsWith keyword (x :: a) :=
      startsWith_append_cons hc (x :: a) b
    rw [List.cons_append, after?, after?, hhere]
    split
    · next h =>
      -- the keyword ends before the character
      have hlength := length_le_of_startsWith h
      rw [← List.cons_append, List.drop_append_of_le_length hlength]
      rfl
    · exact ih

/-- A keyword is before such a character or behind it, and never across. -/
theorem occurs_append_cons {keyword : List Char} {c : Char} (hne : keyword ≠ [])
    (hc : c.toUpper ∉ keyword) (a b : List Char) :
    occurs keyword (a ++ c :: b) = (occurs keyword a || occurs keyword b) := by
  rw [← isSome_after?_eq_occurs, after?_append_cons hne hc, Option.isSome_or, Option.isSome_map,
    isSome_after?_eq_occurs, isSome_after?_eq_occurs]

theorem after?_cons {keyword : List Char} {c : Char} (hne : keyword ≠ [])
    (hc : c.toUpper ∉ keyword) (cs : List Char) : after? keyword (c :: cs) = after? keyword cs := by
  have happend := after?_append_cons hne hc [] cs
  rwa [after?_nil hne] at happend

theorem occurs_cons {keyword : List Char} {c : Char} (hne : keyword ≠ [])
    (hc : c.toUpper ∉ keyword) (cs : List Char) : occurs keyword (c :: cs) = occurs keyword cs := by
  rw [← isSome_after?_eq_occurs, after?_cons hne hc, isSome_after?_eq_occurs]

/-! ## A character that cuts both the keyword and the text -/

section Cut

variable {d : Char} {front word : List Char}

/-- A keyword with a first part before its first `d`, at the start of a text with a word before its
first `d`. -/
theorem startsWith_append_append (hd : d.toUpper = d) (hfront : d ∉ front) (hword : d ∉ upper word)
    (back rest : List Char) :
    startsWith (front ++ d :: back) (word ++ d :: rest) =
      (front == upper word && startsWith back rest) := by
  induction front generalizing word with
  | nil =>
    cases word with
    | nil => simp [startsWith, upper, hd]
    | cons x word =>
      -- the keyword has its `d` here, and the word has none
      obtain ⟨hx, -⟩ := List.ne_and_not_mem_of_not_mem_cons hword
      simp [startsWith, upper, hx]
  | cons k front ih =>
    obtain ⟨hk, hfront⟩ := List.ne_and_not_mem_of_not_mem_cons hfront
    cases word with
    | nil => simp [startsWith, upper, hd, Ne.symm hk]
    | cons x word =>
      -- both go on, and their first characters are compared
      obtain ⟨-, hword⟩ := List.ne_and_not_mem_of_not_mem_cons hword
      rw [List.cons_append, List.cons_append, startsWith, ih hfront hword, ← Bool.and_assoc]
      rfl

/-- A word is passed over if it does not end in the keyword's first part, or if what follows it is
not what follows that part. -/
theorem after?_word_append (hd : d.toUpper = d) (hfront : d ∉ front) (hword : d ∉ upper word)
    {back rest : List Char} (hrest : front <:+ upper word → startsWith back rest = false) :
    after? (front ++ d :: back) (word ++ d :: rest) = after? (front ++ d :: back) rest := by
  -- no end of the word begins an occurrence, the word itself and the empty end among them
  have hhere (w : List Char) (hw : d ∉ upper w)
      (hback : front <:+ upper w → startsWith back rest = false) :
      startsWith (front ++ d :: back) (w ++ d :: rest) = false := by
    rw [startsWith_append_append hd hfront hw]
    by_cases hsame : front = upper w
    · rw [hback (hsame ▸ List.suffix_rfl), Bool.and_false]
    · rw [beq_false_of_ne hsame, Bool.false_and]
  induction word with
  | nil => exact after?_cons_of_not_startsWith (hhere [] List.not_mem_nil hrest)
  | cons x word ih =>
    obtain ⟨-, hword'⟩ := List.ne_and_not_mem_of_not_mem_cons hword
    have hrest' : front <:+ upper word → startsWith back rest = false :=
      fun h => hrest (h.trans (List.suffix_cons _ _))
    exact (after?_cons_of_not_startsWith (hhere (x :: word) hword hrest)).trans (ih hword' hrest')

theorem occurs_word_append (hd : d.toUpper = d) (hfront : d ∉ front) (hword : d ∉ upper word)
    {back rest : List Char} (hrest : front <:+ upper word → startsWith back rest = false) :
    occurs (front ++ d :: back) (word ++ d :: rest) = occurs (front ++ d :: back) rest := by
  rw [← isSome_after?_eq_occurs, after?_word_append hd hfront hword hrest, isSome_after?_eq_occurs]

end Cut

/-! ## A front part in which the keyword cannot begin

An occurrence that begins in the front part of a text ends there, or goes on behind it. Either way
the keyword and what is left of the front part agree as far as both of them go, and this can be
looked up without the text behind. -/

/-- The keyword and the text agree as far as both of them go. -/
def meets : List Char → List Char → Bool
  | [], _ => true
  | _ :: _, [] => true
  | k :: keyword, c :: cs => k == c.toUpper && meets keyword cs

/-- No end of the front part, the empty one aside, agrees with the keyword. -/
def apart (keyword : List Char) : List Char → Bool
  | [] => true
  | c :: front => !meets keyword (c :: front) && apart keyword front

/-- A keyword that begins a text agrees with its front part as far as that goes. -/
theorem meets_of_startsWith_append {keyword cs rest : List Char}
    (h : startsWith keyword (cs ++ rest) = true) : meets keyword cs = true := by
  induction keyword generalizing cs with
  | nil => rfl
  | cons k keyword ih =>
    cases cs with
    | nil => rfl
    | cons c cs =>
      rw [List.cons_append, startsWith, Bool.and_eq_true] at h
      rw [meets, h.1, ih h.2, Bool.and_true]

/-- A front part in which the keyword cannot begin is passed over. By induction over its ends. -/
theorem after?_append_of_apart {keyword front : List Char} (h : apart keyword front = true)
    (rest : List Char) : after? keyword (front ++ rest) = after? keyword rest := by
  induction front with
  | nil => rfl
  | cons c front ih =>
    rw [apart, Bool.and_eq_true, Bool.not_eq_true'] at h
    obtain ⟨hmeets, happart⟩ := h
    have hhere : startsWith keyword (c :: front ++ rest) = false := by
      rw [Bool.eq_false_iff]
      -- an occurrence that begins here would agree with the front part
      intro hstart
      rw [meets_of_startsWith_append hstart] at hmeets
      cases hmeets
    exact (after?_cons_of_not_startsWith hhere).trans (ih happart)

theorem occurs_append_of_apart {keyword front : List Char} (h : apart keyword front = true)
    (rest : List Char) : occurs keyword (front ++ rest) = occurs keyword rest := by
  rw [← isSome_after?_eq_occurs, after?_append_of_apart h, isSome_after?_eq_occurs]

end Keyword

end ScanAudit.Text
