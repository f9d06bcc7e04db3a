import Mathlib.Data.List.DropRight
import ScanAudit.Proofs.Text.Keyword
import ScanAudit.Text.Search

/-!
# Texts that differ in letter case

Two texts with the same letters are equally long, and no test that takes both cases of a letter for
the same tells them apart. So what such tests cut out of one of them stands at the same place as
what they cut out of the other.

* `SameLetters`, `inUpper` — two texts that differ at most in the case of ASCII letters, and a text
  with all of them in upper case
* `SamePlace` — parts of two texts that stand at the same place
* `samePlace_of_suffix`, `samePlace_of_prefix` — ends and beginnings with the same letters
* `samePlace_trim`, `samePlace_firstWord`, `samePlace_afterWord` — blanks and words
* `rel_after?`, `rel_betweenOuter?` — what follows a keyword, and what two characters enclose
-/

namespace ScanAudit.Text

theorem toUpper_toUpper (c : Char) : c.toUpper.toUpper = c.toUpper := by
  apply Char.toNat_inj.mp
  rw [toNat_toUpper, toNat_toUpper]
  -- a letter in upper case is below those in lower case
  by_cases h : 97 ≤ c.toNat ∧ c.toNat ≤ 122
  · rw [if_pos h, if_neg (by omega)]
  · rw [if_neg h, if_neg h]

/-- The texts differ at most in the case of their ASCII letters. -/
def SameLetters (cs ds : List Char) : Prop :=
  upper cs = upper ds

theorem sameLetters_upper (cs : List Char) : SameLetters cs (upper cs) := by
  show upper cs = upper (upper cs)
  simp only [upper, List.map_map, Function.comp_def, toUpper_toUpper]

/-- A text with its ASCII letters in upper case. -/
def inUpper (s : String) : String :=
  String.ofList (upper s.toList)

theorem toList_inUpper (s : String) : (inUpper s).toList = upper s.toList := by
  rw [inUpper, String.toList_ofList]

/-- Two strings have the same upper case if they have the same letters. -/
theorem inUpper_eq_iff {s t : String} : inUpper s = inUpper t ↔ SameLetters s.toList t.toList := by
  rw [← String.toList_inj, toList_inUpper, toList_inUpper, SameLetters]

/-- A test that takes both cases of a letter for the same. -/
def Caseless (p : Char → Bool) : Prop :=
  ∀ c, p c.toUpper = p c

theorem caseless_isBlank : Caseless isBlank :=
  isBlank_toUpper

/-- The test for a word's characters takes both cases for the same too. -/
theorem caseless_not_isBlank : Caseless (!isBlank ·) := by
  intro c
  show (!isBlank c.toUpper) = !isBlank c
  rw [isBlank_toUpper]

/-- A character before the letters is no letter, and none becomes it. -/
theorem caseless_bne {d : Char} (hd : d.toNat < 65) : Caseless (· != d) := by
  intro c
  have hiff : c.toUpper = d ↔ c = d := by
    rw [← Char.toNat_inj, ← Char.toNat_inj, toNat_toUpper]
    split <;> omega
  show (c.toUpper != d) = (c != d)
  rw [Bool.eq_iff_iff, bne_iff_ne, bne_iff_ne]
  exact not_congr hiff

section SameLetters

variable {cs ds : List Char}

theorem SameLetters.length_eq (h : SameLetters cs ds) : cs.length = ds.length := by
  have hlength := congrArg List.length h
  rwa [upper, upper, List.length_map, List.length_map] at hlength

theorem SameLetters.isEmpty_eq (h : SameLetters cs ds) : cs.isEmpty = ds.isEmpty := by
  rw [Bool.eq_iff_iff, List.isEmpty_iff_length_eq_zero, List.isEmpty_iff_length_eq_zero,
    h.length_eq]

/-- Texts with the same letters are taken apart side by side. -/
theorem SameLetters.cons_left {c : Char} (h : SameLetters (c :: cs) ds) :
    ∃ d ds', ds = d :: ds' ∧ SameLetters cs ds' := by
  cases ds with
  | nil => cases h
  | cons d ds => exact ⟨d, ds, rfl, (List.cons.inj h).2⟩

theorem SameLetters.nil_left (h : SameLetters [] ds) : ds = [] :=
  List.map_eq_nil_iff.mp h.symm

theorem SameLetters.reverse (h : SameLetters cs ds) : SameLetters cs.reverse ds.reverse := by
  have hreverse := congrArg List.reverse h
  rwa [upper, upper, ← List.map_reverse, ← List.map_reverse] at hreverse

/-- A test that takes both cases for the same may be made before or after. -/
theorem upper_dropWhile {p : Char → Bool} (hp : Caseless p) (cs : List Char) :
    upper (cs.dropWhile p) = (upper cs).dropWhile p := by
  have hcomp : p ∘ Char.toUpper = p := funext hp
  rw [upper, upper, List.dropWhile_map, hcomp]

theorem upper_takeWhile {p : Char → Bool} (hp : Caseless p) (cs : List Char) :
    upper (cs.takeWhile p) = (upper cs).takeWhile p := by
  have hcomp : p ∘ Char.toUpper = p := funext hp
  rw [upper, upper, List.takeWhile_map, hcomp]

/-- What such a test drops from two texts with the same letters leaves such texts. -/
theorem SameLetters.dropWhile (h : SameLetters cs ds) {p : Char → Bool} (hp : Caseless p) :
    SameLetters (cs.dropWhile p) (ds.dropWhile p) := by
  show upper (cs.dropWhile p) = upper (ds.dropWhile p)
  rw [upper_dropWhile hp, upper_dropWhile hp, h]

/-- What such a test takes from them are such texts too. -/
theorem SameLetters.takeWhile (h : SameLetters cs ds) {p : Char → Bool} (hp : Caseless p) :
    SameLetters (cs.takeWhile p) (ds.takeWhile p) := by
  show upper (cs.takeWhile p) = upper (ds.takeWhile p)
  rw [upper_takeWhile hp, upper_takeWhile hp, h]

theorem SameLetters.drop (h : SameLetters cs ds) (n : Nat) :
    SameLetters (cs.drop n) (ds.drop n) := by
  show upper (cs.drop n) = upper (ds.drop n)
  rw [upper, upper, List.map_drop, List.map_drop]
  exact congrArg (List.drop n) h

theorem SameLetters.take (h : SameLetters cs ds) (n : Nat) :
    SameLetters (cs.take n) (ds.take n) := by
  show upper (cs.take n) = upper (ds.take n)
  rw [upper, upper, List.map_take, List.map_take]
  exact congrArg (List.take n) h

end SameLetters

/-! ## Parts at the same place -/

/-- Both parts begin at the same place of their texts, and are equally long. -/
def SamePlace (cs ds part part' : List Char) : Prop :=
  ∃ start length, part = (cs.drop start).take length ∧ part' = (ds.drop start).take length

section SamePlace

variable {cs ds part part' : List Char}

/-- Parts at the same place of texts with the same letters have the same letters. -/
theorem SamePlace.sameLetters (hpart : SamePlace cs ds part part') (h : SameLetters cs ds) :
    SameLetters part part' := by
  obtain ⟨start, length, rfl, rfl⟩ := hpart
  exact (h.drop start).take length

/-- Parts of parts are parts. -/
theorem SamePlace.trans {inner inner' : List Char} (hpart : SamePlace cs ds part part')
    (hinner : SamePlace part part' inner inner') : SamePlace cs ds inner inner' := by
  obtain ⟨start, length, rfl, rfl⟩ := hpart
  obtain ⟨start', length', rfl, rfl⟩ := hinner
  -- the places add up, and the inner part ends where it does or where the outer one does
  refine ⟨start + start', min length' (length - start'), ?_, ?_⟩
  · rw [List.drop_take, List.take_take, List.drop_drop]
  · rw [List.drop_take, List.take_take, List.drop_drop]

/-- The same where there may be no inner part: there is one in both texts or in neither. -/
theorem SamePlace.rel_trans {inner inner' : Option (List Char)}
    (hpart : SamePlace cs ds part part')
    (hinner : Option.Rel (SamePlace part part') inner inner') :
    Option.Rel (SamePlace cs ds) inner inner' := by
  cases hinner with
  | some hinner => exact .some (hpart.trans hinner)
  | none => exact .none

/-- Two ends with the same letters are equally long, and so begin at the same place. -/
theorem samePlace_of_suffix (h : SameLetters cs ds) (hletters : SameLetters part part')
    (hpart : part <:+ cs) (hpart' : part' <:+ ds) : SamePlace cs ds part part' := by
  refine ⟨cs.length - part.length, part.length, ?_, ?_⟩
  · rw [← List.suffix_iff_eq_drop.mp hpart, List.take_length]
  · rw [h.length_eq, hletters.length_eq, ← List.suffix_iff_eq_drop.mp hpart', List.take_length]

/-- Two beginnings with the same letters end at the same place. -/
theorem samePlace_of_prefix (hletters : SameLetters part part') (hpart : part <+: cs)
    (hpart' : part' <+: ds) : SamePlace cs ds part part' := by
  refine ⟨0, part.length, ?_, ?_⟩
  · rw [List.drop_zero]
    exact List.prefix_iff_eq_take.mp hpart
  · rw [List.drop_zero, hletters.length_eq]
    exact List.prefix_iff_eq_take.mp hpart'

theorem samePlace_drop (h : SameLetters cs ds) (n : Nat) :
    SamePlace cs ds (cs.drop n) (ds.drop n) :=
  samePlace_of_suffix h (h.drop n) (List.drop_suffix n cs) (List.drop_suffix n ds)

/-- What a caseless test leaves is an end of the text. -/
theorem samePlace_dropWhile (h : SameLetters cs ds) {p : Char → Bool} (hp : Caseless p) :
    SamePlace cs ds (cs.dropWhile p) (ds.dropWhile p) :=
  samePlace_of_suffix h (h.dropWhile hp) (List.dropWhile_suffix p) (List.dropWhile_suffix p)

theorem samePlace_takeWhile (h : SameLetters cs ds) {p : Char → Bool} (hp : Caseless p) :
    SamePlace cs ds (cs.takeWhile p) (ds.takeWhile p) :=
  samePlace_of_prefix (h.takeWhile hp) (List.takeWhile_prefix p) (List.takeWhile_prefix p)

theorem samePlace_rdropWhile (h : SameLetters cs ds) {p : Char → Bool} (hp : Caseless p) :
    SamePlace cs ds (cs.rdropWhile p) (ds.rdropWhile p) :=
  samePlace_of_prefix (h.reverse.dropWhile hp).reverse (List.rdropWhile_prefix p cs)
    (List.rdropWhile_prefix p ds)

theorem samePlace_dropBlanks (h : SameLetters cs ds) :
    SamePlace cs ds (dropBlanks cs) (dropBlanks ds) :=
  samePlace_dropWhile h caseless_isBlank

/-- Blanks are dropped in front, then at the end of what is left. -/
theorem samePlace_trim (h : SameLetters cs ds) : SamePlace cs ds (trim cs) (trim ds) := by
  have hfront := samePlace_dropBlanks h
  exact hfront.trans (samePlace_rdropWhile (hfront.sameLetters h) caseless_isBlank)

/-- The first word begins behind the blanks. -/
theorem samePlace_firstWord (h : SameLetters cs ds) :
    SamePlace cs ds (firstWord cs) (firstWord ds) := by
  have hfront := samePlace_dropBlanks h
  exact hfront.trans (samePlace_takeWhile (hfront.sameLetters h) caseless_not_isBlank)

theorem samePlace_afterWord (h : SameLetters cs ds) :
    SamePlace cs ds (afterWord cs) (afterWord ds) := by
  have hfront := samePlace_dropBlanks h
  exact hfront.trans (samePlace_dropWhile (hfront.sameLetters h) caseless_not_isBlank)

end SamePlace

/-! ## Keywords -/

section Keyword

variable {cs ds : List Char}

theorem SameLetters.startsWith_eq (h : SameLetters cs ds) (keyword : List Char) :
    Keyword.startsWith keyword cs = Keyword.startsWith keyword ds := by
  rw [Keyword.startsWith_eq_isPrefixOf_upper, Keyword.startsWith_eq_isPrefixOf_upper, h]

/-- The first occurrence is at the same place, as the keyword begins both texts or neither of them,
and then the same holds of what is left of them. -/
theorem rel_after? (h : SameLetters cs ds) (keyword : List Char) :
    Option.Rel (SamePlace cs ds) (Keyword.after? keyword cs) (Keyword.after? keyword ds) := by
  induction cs generalizing ds with
  | nil =>
    obtain rfl := h.nil_left
    rw [Keyword.after?]
    split
    · exact .some (samePlace_drop h 0)
    · exact .none
  | cons c cs ih =>
    obtain ⟨d, ds, rfl, htail⟩ := h.cons_left
    rw [Keyword.after?, Keyword.after?, h.startsWith_eq keyword]
    split
    · exact .some (samePlace_drop h keyword.length)
    · -- the keyword is further down, in what is left of both
      have hplace : SamePlace (c :: cs) (d :: ds) cs ds := samePlace_drop h 1
      exact hplace.rel_trans (ih htail)

/-- A keyword occurs in both texts or in neither, since what follows it does. -/
theorem SameLetters.occurs_eq (h : SameLetters cs ds) (keyword : List Char) :
    Keyword.occurs keyword cs = Keyword.occurs keyword ds := by
  have hrel := rel_after? h keyword
  rw [← Keyword.isSome_after?_eq_occurs, ← Keyword.isSome_after?_eq_occurs]
  generalize Keyword.after? keyword cs = rest, Keyword.after? keyword ds = rest' at hrel
  cases hrel with
  | some _ => rfl
  | none => rfl

end Keyword

/-! ## Between two characters -/

section Between

variable {cs ds : List Char} {first last : Char}

/-- The last occurrence of a character is at the same place, if no letter becomes this character in
upper case. -/
theorem rel_beforeLast? (h : SameLetters cs ds) (hlast : Caseless (· != last)) :
    Option.Rel (SamePlace cs ds) (beforeLast? last cs) (beforeLast? last ds) := by
  have hletters := h.reverse.dropWhile hlast
  have hplace : SamePlace cs ds (cs.reverse.dropWhile (· != last)).reverse
      (ds.reverse.dropWhile (· != last)).reverse := samePlace_rdropWhile h hlast
  unfold beforeLast?
  cases hcs : cs.reverse.dropWhile (· != last) with
  | nil =>
    rw [hcs] at hletters
    -- neither text has the character
    rw [hletters.nil_left]
    exact .none
  | cons c before =>
    rw [hcs] at hletters hplace
    obtain ⟨d, before', hds, hbefore⟩ := hletters.cons_left
    rw [hds] at hplace ⊢
    -- the part up to the character, without it
    have hinner : SamePlace (c :: before).reverse (d :: before').reverse before.reverse
        before'.reverse := by
      apply samePlace_of_prefix hbefore.reverse
      · exact List.reverse_prefix.mpr (List.suffix_cons c before)
      · exact List.reverse_prefix.mpr (List.suffix_cons d before')
    exact .some (hplace.trans hinner)

/-- What two such characters enclose is at the same place. -/
theorem rel_betweenOuter? (h : SameLetters cs ds) (hfirst : Caseless (· != first))
    (hlast : Caseless (· != last)) :
    Option.Rel (SamePlace cs ds) (betweenOuter? first last cs) (betweenOuter? first last ds) := by
  have hletters := h.dropWhile hfirst
  have hplace := samePlace_dropWhile h hfirst
  unfold betweenOuter?
  cases hcs : cs.dropWhile (· != first) with
  | nil =>
    rw [hcs] at hletters
    rw [hletters.nil_left]
    exact .none
  | cons c after =>
    rw [hcs] at hletters hplace
    obtain ⟨d, after', hds, hafter⟩ := hletters.cons_left
    rw [hds] at hletters hplace ⊢
    -- the rest behind the character
    have hinner : SamePlace (c :: after) (d :: after') after after' := samePlace_drop hletters 1
    exact (hplace.trans hinner).rel_trans (rel_beforeLast? hafter hlast)

end Between

end ScanAudit.Text
