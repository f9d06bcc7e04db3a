import ScanAudit.Report

/-!
# What fits into an output

An output with a limit keeps the longest beginning of a text that it has bytes for. If the limit
stands between two characters of the text, these are exactly its first bytes.

* `fit_append`, `fit_append_of_lt` — what fits of a text in two parts
* `toByteArray_fit` — what fits, in bytes
-/

namespace ScanAudit.Report

theorem utf8ByteSize_ofList_cons (c : Char) (cs : List Char) :
    (String.ofList (c :: cs)).utf8ByteSize = c.utf8Size + (String.ofList cs).utf8ByteSize := by
  rw [String.ofList_cons, String.utf8ByteSize_append, String.utf8ByteSize_singleton]

/-- Nothing fits into no room, as every character has at least one byte. -/
theorem fit_zero (cs : List Char) : fit 0 cs = [] := by
  cases cs with
  | nil => rfl
  | cons c cs =>
    have hpos : 0 < c.utf8Size := c.utf8Size_pos
    rw [fit, if_neg (by omega)]

/-- A part that fits is kept, and leaves its bytes fewer for the rest. -/
theorem fit_append {room : Nat} {as : List Char} (h : (String.ofList as).utf8ByteSize ≤ room)
    (bs : List Char) :
    fit room (as ++ bs) = as ++ fit (room - (String.ofList as).utf8ByteSize) bs := by
  induction as generalizing room with
  | nil => rfl
  | cons c as ih =>
    rw [utf8ByteSize_ofList_cons] at h ⊢
    have hrest : fit (room - c.utf8Size) (as ++ bs) =
        as ++ fit (room - c.utf8Size - (String.ofList as).utf8ByteSize) bs := ih (by omega)
    rw [List.cons_append, fit, if_pos (by omega), hrest, Nat.sub_sub]
    rfl

theorem fit_of_le {room : Nat} {cs : List Char} (h : (String.ofList cs).utf8ByteSize ≤ room) :
    fit room cs = cs := by
  have hall := fit_append h []
  rw [List.append_nil] at hall
  rw [hall, fit, List.append_nil]

/-- Nothing is kept behind a part that does not fit. -/
theorem fit_append_of_lt {room : Nat} {as : List Char}
    (h : room < (String.ofList as).utf8ByteSize) (bs : List Char) :
    fit room (as ++ bs) = fit room as := by
  induction as generalizing room with
  | nil => exact absurd h (Nat.not_lt_zero room)
  | cons c as ih =>
    rw [utf8ByteSize_ofList_cons] at h
    rw [List.cons_append, fit, fit]
    -- the first character fits or not, and the same for both texts
    by_cases hc : c.utf8Size ≤ room
    · rw [if_pos hc, if_pos hc, ih (by omega)]
    · rw [if_neg hc, if_neg hc]

/-- If the limit is a place between characters, what fits are the bytes up to it. -/
theorem toByteArray_fit {limit : Nat} {text : String}
    (h : (⟨min limit text.utf8ByteSize⟩ : String.Pos.Raw).IsValid text) :
    (String.ofList (fit limit text.toList)).toByteArray =
      text.toByteArray.extract 0 (min limit text.utf8ByteSize) := by
  -- the limit cuts the text into what is kept and the rest
  obtain ⟨kept, rest, rfl, hplace⟩ := String.Pos.Raw.isValid_iff_exists_append.mp h
  have hsize : min limit (kept ++ rest).utf8ByteSize = kept.utf8ByteSize :=
    congrArg String.Pos.Raw.byteIdx hplace
  have hfit : fit limit (kept ++ rest).toList = kept.toList := by
    have hkept : (String.ofList kept.toList).utf8ByteSize ≤ limit := by
      rw [String.ofList_toList]
      omega
    rw [String.toList_append, fit_append hkept, String.ofList_toList]
    rw [String.utf8ByteSize_append] at hsize
    by_cases hfull : limit = kept.utf8ByteSize
    · rw [hfull, Nat.sub_self, fit_zero, List.append_nil]
    · -- there is room left only if the text has ended
      have hempty : rest.utf8ByteSize = 0 := by omega
      rw [String.utf8ByteSize_eq_zero_iff.mp hempty]
      simp [fit]
  rw [hfit, String.ofList_toList, hsize, String.toByteArray_append]
  exact (ByteArray.extract_append_eq_left String.size_toByteArray.symm).symm

end ScanAudit.Report
