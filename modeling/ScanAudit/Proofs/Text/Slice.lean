import ScanAudit.Proofs.Text.Word

/-!
# Slices at byte offsets

In memory a text is its bytes, and a part of it is told by the offsets at which it begins and ends.
An offset behind the end of the text, or inside a character, cuts nothing: that is a fault. What is
found in a text, or in its upper case, is between two offsets at which the text can be cut.

* `byteSize` — the length of a text in bytes
* `SliceFault`, `cutAt`, `sliceFrom`, `slice` — a text cut at byte offsets
* `cutAt_eq_ok_iff` — where a text can be cut
* `offset?`, `lastOffset?` — the offset of what is found first, or last
* `exists_of_offset?_upper` — a keyword that is found in the upper case of a text
* `offset?_append_cons`, `lastOffset?_append_cons` — a character that is found
-/

namespace ScanAudit.Text

/-- The number of bytes of a text in UTF-8. -/
def byteSize : List Char → Nat
  | [] => 0
  | c :: cs => c.utf8Size + byteSize cs

theorem byteSize_cons (c : Char) (cs : List Char) :
    byteSize (c :: cs) = c.utf8Size + byteSize cs := rfl

theorem byteSize_append (as bs : List Char) : byteSize (as ++ bs) = byteSize as + byteSize bs := by
  induction as with
  | nil => rw [byteSize, List.nil_append, Nat.zero_add]
  | cons c as ih => rw [List.cons_append, byteSize_cons, ih, byteSize_cons, Nat.add_assoc]

/-- A letter and its upper case are one byte each, and no other character changes. -/
theorem utf8Size_toUpper (c : Char) : c.toUpper.utf8Size = c.utf8Size := by
  have hbyte (d : Char) (hd : d.toNat ≤ 127) : d.utf8Size = 1 := Char.utf8Size_eq_one_iff.mpr hd
  have hupper := toNat_toUpper c
  by_cases h : 97 ≤ c.toNat ∧ c.toNat ≤ 122
  · rw [if_pos h] at hupper
    rw [hbyte c (by omega), hbyte c.toUpper (by omega)]
  · rw [if_neg h] at hupper
    rw [Char.toNat_inj.mp hupper]

/-- Upper case moves no offset. -/
theorem byteSize_upper (cs : List Char) : byteSize (upper cs) = byteSize cs := by
  induction cs with
  | nil => rfl
  | cons c cs ih =>
    show c.toUpper.utf8Size + byteSize (upper cs) = c.utf8Size + byteSize cs
    rw [utf8Size_toUpper, ih]

/-! ## Cuts -/

/-- Why a text cannot be cut at an offset. -/
inductive SliceFault
  | outOfRange
  | insideCharacter
  deriving DecidableEq

/-- A text up to a byte offset and from there on. -/
def cutAt : Nat → List Char → Except SliceFault (List Char × List Char)
  | 0, cs => .ok ([], cs)
  | _ + 1, [] => .error .outOfRange
  | n + 1, c :: cs =>
    if c.utf8Size ≤ n + 1 then
      (cutAt (n + 1 - c.utf8Size) cs).map fun (front, back) => (c :: front, back)
    else .error .insideCharacter

def sliceFrom (start : Nat) (cs : List Char) : Except SliceFault (List Char) :=
  (cutAt start cs).map (·.2)

/-- The part of a text from one byte offset to another. -/
def slice (start stop : Nat) (cs : List Char) : Except SliceFault (List Char) :=
  if start ≤ stop then (cutAt stop cs).bind fun (front, _) => sliceFrom start front
  else .error .outOfRange

/-- A text can be cut at the sizes of its beginnings, and nowhere else. -/
theorem cutAt_eq_ok_iff {n : Nat} {cs front back : List Char} :
    cutAt n cs = .ok (front, back) ↔ cs = front ++ back ∧ byteSize front = n := by
  constructor
  · intro h
    -- by the recursion of the cut, which ends at the offset or at the end of the text
    induction cs generalizing n front with
    | nil =>
      cases n with
      | zero => cases h; exact ⟨rfl, rfl⟩
      | succ n => cases h
    | cons c cs ih =>
      cases n with
      | zero => cases h; exact ⟨rfl, rfl⟩
      | succ n =>
        rw [cutAt] at h
        split at h
        · next hfits =>
          cases hcut : cutAt (n + 1 - c.utf8Size) cs with
          | error fault => rw [hcut] at h; cases h
          | ok parts =>
            rw [hcut] at h
            cases h
            obtain ⟨hcs, hsize⟩ := ih hcut
            refine ⟨by rw [hcs]; rfl, ?_⟩
            rw [byteSize_cons, hsize]
            omega
        · cases h
  · rintro ⟨rfl, rfl⟩
    induction front with
    | nil => cases back <;> rfl
    | cons c front ih =>
      -- a character has at least one byte, so that its offset is not zero
      have hpos : 0 < c.utf8Size := c.utf8Size_pos
      obtain ⟨n, hn⟩ : ∃ n, byteSize (c :: front) = n + 1 :=
        Nat.exists_eq_succ_of_ne_zero (by rw [byteSize_cons]; omega)
      have hrest : n + 1 - c.utf8Size = byteSize front := by rw [← hn, byteSize_cons]; omega
      have hfits : c.utf8Size ≤ n + 1 := by rw [← hn, byteSize_cons]; omega
      rw [hn, List.cons_append, cutAt, if_pos hfits, hrest, ih]
      rfl

theorem cutAt_byteSize (front back : List Char) :
    cutAt (byteSize front) (front ++ back) = .ok (front, back) :=
  cutAt_eq_ok_iff.mpr ⟨rfl, rfl⟩

theorem sliceFrom_byteSize (front back : List Char) :
    sliceFrom (byteSize front) (front ++ back) = .ok back := by
  rw [sliceFrom, cutAt_byteSize]
  rfl

/-- Between the sizes of two beginnings there is what the longer one has more. -/
theorem slice_byteSize (front middle back : List Char) :
    slice (byteSize front) (byteSize (front ++ middle)) (front ++ middle ++ back) = .ok middle := by
  have hle : byteSize front ≤ byteSize (front ++ middle) := by
    rw [byteSize_append]
    omega
  rw [slice, if_pos hle, cutAt_byteSize]
  exact sliceFrom_byteSize front middle

/-! ## Offsets -/

/-- The offset of the first occurrence of a text. -/
def offset? (pattern : List Char) : List Char → Option Nat
  | [] => if pattern.isEmpty then some 0 else none
  | c :: cs =>
    if pattern.isPrefixOf (c :: cs) then some 0 else (offset? pattern cs).map (c.utf8Size + ·)

/-- The offset of the last occurrence of a character. -/
def lastOffset? (last : Char) : List Char → Option Nat
  | [] => none
  | c :: cs =>
    ((lastOffset? last cs).map (c.utf8Size + ·)).or (if c = last then some 0 else none)

theorem offset?_cons (pattern cs : List Char) (c : Char) :
    offset? pattern (c :: cs) =
      if pattern.isPrefixOf (c :: cs) then some 0
      else (offset? pattern cs).map (c.utf8Size + ·) :=
  rfl

section Keyword

variable {keyword cs : List Char}

/-- A text that begins with a keyword begins with as many bytes as the keyword has. -/
theorem byteSize_take_of_isPrefixOf (h : keyword.isPrefixOf (upper cs) = true) :
    byteSize (cs.take keyword.length) = byteSize keyword := by
  have htake : keyword = upper (cs.take keyword.length) := by
    rw [upper, List.map_take]
    exact List.prefix_iff_eq_take.mp (List.isPrefixOf_iff_prefix.mp h)
  conv_rhs => rw [htake, byteSize_upper]

/-- Where a keyword is found in the upper case of a text, the text can be cut before and behind it,
and what follows is what follows the keyword. -/
theorem exists_of_offset?_upper {n : Nat} (h : offset? keyword (upper cs) = some n) :
    ∃ front found rest, cs = front ++ (found ++ rest) ∧ byteSize front = n ∧
      byteSize found = byteSize keyword ∧ Keyword.after? keyword cs = some rest := by
  induction cs generalizing n with
  | nil =>
    obtain ⟨hempty, rfl⟩ : keyword.isEmpty = true ∧ 0 = n := by simpa [offset?, upper] using h
    obtain rfl := List.isEmpty_iff.mp hempty
    exact ⟨[], [], [], rfl, rfl, rfl, rfl⟩
  | cons c cs ih =>
    have hstart := Keyword.startsWith_eq_isPrefixOf_upper keyword (c :: cs)
    change offset? keyword (c.toUpper :: upper cs) = some n at h
    rw [offset?_cons] at h
    rw [Keyword.after?, hstart]
    split at h
    · next hprefix =>
      cases h
      -- found here, and as many bytes long in the text as in its upper case
      refine ⟨[], _, _, (List.take_append_drop keyword.length (c :: cs)).symm, rfl,
        byteSize_take_of_isPrefixOf hprefix, ?_⟩
      exact if_pos hprefix
    · next hprefix =>
      -- not found here, so the tail has it, one character later
      obtain ⟨m, hm, rfl⟩ := Option.map_eq_some_iff.mp h
      obtain ⟨front, found, rest, hcs, hfront, hfound, hafter⟩ := ih hm
      refine ⟨c :: front, found, rest, by rw [hcs]; rfl, ?_, hfound, ?_⟩
      · rw [byteSize_cons, hfront, utf8Size_toUpper]
      · exact (if_neg hprefix).trans hafter

/-- A keyword that is not found in the upper case of a text does not occur in it. -/
theorem after?_of_offset?_upper_eq_none (h : offset? keyword (upper cs) = none) :
    Keyword.after? keyword cs = none := by
  induction cs with
  | nil => simpa [offset?, upper, Keyword.after?] using h
  | cons c cs ih =>
    have hstart := Keyword.startsWith_eq_isPrefixOf_upper keyword (c :: cs)
    change offset? keyword (c.toUpper :: upper cs) = none at h
    rw [offset?_cons] at h
    rw [Keyword.after?, hstart]
    split at h
    · cases h
    · next hprefix => exact (if_neg hprefix).trans (ih (Option.map_eq_none_iff.mp h))

end Keyword

/-! ## The first and the last of a character -/

section Character

variable {d : Char}

/-- The offset of a character is the size of what stands before it. -/
theorem offset?_append_cons {before : List Char} (h : d ∉ before) (after : List Char) :
    offset? [d] (before ++ d :: after) = some (byteSize before) := by
  induction before with
  | nil => simp [offset?, byteSize]
  | cons c before ih =>
    obtain ⟨hc, hrest⟩ := List.ne_and_not_mem_of_not_mem_cons h
    have hnot : ¬[d].isPrefixOf (c :: (before ++ d :: after)) = true := by simpa using hc
    rw [List.cons_append, offset?_cons, if_neg hnot, ih hrest, byteSize_cons]
    rfl

theorem offset?_of_not_mem {cs : List Char} (h : d ∉ cs) : offset? [d] cs = none := by
  induction cs with
  | nil => rfl
  | cons c cs ih =>
    obtain ⟨hc, hrest⟩ := List.ne_and_not_mem_of_not_mem_cons h
    have hnot : ¬[d].isPrefixOf (c :: cs) = true := by simpa using hc
    rw [offset?_cons, if_neg hnot, ih hrest]
    rfl

theorem lastOffset?_of_not_mem {cs : List Char} (h : d ∉ cs) : lastOffset? d cs = none := by
  induction cs with
  | nil => rfl
  | cons c cs ih =>
    obtain ⟨hc, hrest⟩ := List.ne_and_not_mem_of_not_mem_cons h
    rw [lastOffset?, ih hrest, if_neg (Ne.symm hc)]
    rfl

/-- The offset of its last occurrence is the size of what stands before that. -/
theorem lastOffset?_append_cons {after : List Char} (h : d ∉ after) (before : List Char) :
    lastOffset? d (before ++ d :: after) = some (byteSize before) := by
  induction before with
  | nil =>
    rw [List.nil_append, lastOffset?, lastOffset?_of_not_mem h, if_pos rfl]
    rfl
  | cons c before ih =>
    rw [List.cons_append, lastOffset?, ih, byteSize_cons]
    rfl

theorem lastOffset?_append_of_not_mem {after : List Char} (h : d ∉ after) (before : List Char) :
    lastOffset? d (before ++ after) = lastOffset? d before := by
  induction before with
  | nil => rw [List.nil_append, lastOffset?_of_not_mem h]; rfl
  | cons c before ih => rw [List.cons_append, lastOffset?, ih, lastOffset?]

theorem lastOffset?_lt {cs : List Char} {n : Nat} (h : lastOffset? d cs = some n) :
    n < byteSize cs := by
  induction cs generalizing n with
  | nil => cases h
  | cons c cs ih =>
    have hpos : 0 < c.utf8Size := c.utf8Size_pos
    rw [byteSize_cons]
    rw [lastOffset?] at h
    cases hrest : lastOffset? d cs with
    | none =>
      rw [hrest] at h
      -- the only occurrence is here, at the front
      obtain ⟨-, rfl⟩ : c = d ∧ 0 = n := by simpa using h
      omega
    | some m =>
      rw [hrest] at h
      have hm := ih hrest
      obtain rfl : c.utf8Size + m = n := Option.some.inj h
      omega

end Character

end ScanAudit.Text
