import ScanAudit.Text.Blank
import ScanAudit.Text.Decimal

/-!
# Numerals between blanks

A count is written as ASCII digits, with a plus sign in front of them or not, and may have blanks
around it. None of its characters is a blank, so trimming finds it exactly.

* `Numeral` — the texts of a number
* `unsigned?_eq_some_iff` — they are what the reader of numbers takes
* `ofNat_inj`, `ofInt_inj` — numbers with the same decimal text are equal
* `Padded` — a text with blanks around it
* `trim_eq_of_padded` — trimming takes these blanks off, and no more
-/

namespace ScanAudit.Text

namespace Decimal

/-- One or more ASCII digits with the number that they stand for, behind at most one plus sign.
Leading zeros are allowed. -/
inductive Numeral : List Char → Nat → Prop
  | intro (sign digits : List Char) (hsign : sign = [] ∨ sign = ['+']) (hne : digits ≠ [])
      (hdigits : ∀ c ∈ digits, c.isDigit = true) :
      Numeral (sign ++ digits) (Nat.ofDigitChars 10 digits 0)

theorem value?_eq_some_iff {cs : List Char} {n : Nat} :
    value? cs = some n ↔
      cs ≠ [] ∧ (∀ c ∈ cs, c.isDigit = true) ∧ n = Nat.ofDigitChars 10 cs 0 := by
  unfold value?
  rw [Option.ite_none_right_eq_some, Bool.and_eq_true, List.all_eq_true, Option.some.injEq,
    eq_comm (a := n)]
  simp [and_assoc]

theorem unsigned?_plus (bound : Nat) (digits : List Char) :
    unsigned? bound ('+' :: digits) =
      (value? digits).bind fun n => if n ≤ bound then some n else none := rfl

theorem unsigned?_of_not_plus (bound : Nat) {cs : List Char} (h : cs.head? ≠ some '+') :
    unsigned? bound cs = (value? cs).bind fun n => if n ≤ bound then some n else none := by
  unfold unsigned?
  split
  · exact absurd rfl h
  · rfl

/-- The reader takes the numerals within its bound, with the number that they stand for. By cases on
whether a plus sign is in front. -/
theorem unsigned?_eq_some_iff {bound : Nat} {cs : List Char} {n : Nat} :
    unsigned? bound cs = some n ↔ Numeral cs n ∧ n ≤ bound := by
  constructor
  · intro h
    -- what is read as digits is the text, or the text behind its plus sign
    have hvalue : ∃ sign digits, cs = sign ++ digits ∧ (sign = [] ∨ sign = ['+']) ∧
        (value? digits).bind (fun n => if n ≤ bound then some n else none) = some n := by
      by_cases hplus : cs.head? = some '+'
      · obtain ⟨digits, rfl⟩ := List.head?_eq_some_iff.mp hplus
        exact ⟨['+'], digits, rfl, .inr rfl, h⟩
      · exact ⟨[], cs, rfl, .inl rfl, (unsigned?_of_not_plus bound hplus).symm.trans h⟩
    obtain ⟨sign, digits, rfl, hsign, hbind⟩ := hvalue
    obtain ⟨m, hm, hbound⟩ := Option.bind_eq_some_iff.mp hbind
    obtain ⟨hne, hdigits, rfl⟩ := value?_eq_some_iff.mp hm
    obtain ⟨hle, hvalue⟩ := Option.ite_none_right_eq_some.mp hbound
    obtain rfl := Option.some.inj hvalue
    exact ⟨.intro sign digits hsign hne hdigits, hle⟩
  · rintro ⟨⟨sign, digits, hsign, hne, hdigits⟩, hle⟩
    have hvalue : value? digits = some (Nat.ofDigitChars 10 digits 0) :=
      value?_eq_some_iff.mpr ⟨hne, hdigits, rfl⟩
    rcases hsign with rfl | rfl
    · -- digits alone do not begin with a plus sign
      have hplus : digits.head? ≠ some '+' := by
        intro hhead
        have hdigit := hdigits '+' (List.mem_of_head? hhead)
        exact absurd hdigit (by decide)
      rw [List.nil_append, unsigned?_of_not_plus bound hplus, hvalue]
      exact if_pos hle
    · rw [List.singleton_append, unsigned?_plus, hvalue]
      exact if_pos hle

theorem numeral_ofNat (n : Nat) : Numeral (ofNat n) n := by
  obtain ⟨hne, hdigits, hvalue⟩ := value?_eq_some_iff.mp (value?_ofNat n)
  have h := Numeral.intro [] (ofNat n) (.inl rfl) hne hdigits
  rwa [List.nil_append, ← hvalue] at h

theorem Numeral.isDigit_or_plus {cs : List Char} {n : Nat} (h : Numeral cs n) {c : Char}
    (hc : c ∈ cs) : c.isDigit = true ∨ c = '+' := by
  obtain ⟨sign, digits, hsign, hne, hdigits⟩ := h
  rcases List.mem_append.mp hc with hc | hc
  · rcases hsign with rfl | rfl
    · cases hc
    · exact .inr (List.mem_singleton.mp hc)
  · exact .inl (hdigits c hc)

/-- The text of a number is read back, so different numbers have different texts. -/
theorem ofNat_inj {m n : Nat} (h : ofNat m = ofNat n) : m = n := by
  have hvalue : some m = some n := by rw [← value?_ofNat m, h, value?_ofNat n]
  exact Option.some.inj hvalue

/-- The text of an integer is digits, but for the minus sign. -/
theorem isDigit_or_minus_of_mem_ofInt {n : Int} {c : Char} (h : c ∈ ofInt n) :
    c.isDigit = true ∨ c = '-' := by
  cases n with
  | ofNat n => exact .inl (isDigit_of_mem_ofNat h)
  | negSucc n =>
    rcases List.mem_cons.mp h with rfl | h
    · exact .inr rfl
    · exact .inl (isDigit_of_mem_ofNat h)

/-- The minus sign is no digit, so it tells the negative numbers from the others. -/
theorem ofInt_inj {m n : Int} (h : ofInt m = ofInt n) : m = n := by
  have hsign (k l : Nat) : ofInt (.ofNat k) ≠ ofInt (.negSucc l) := by
    -- a negative number has a character that another does not have
    intro heq
    have hmem : '-' ∈ ofNat k := by
      rw [show ofNat k = '-' :: ofNat (l + 1) from heq]
      exact .head _
    exact absurd (isDigit_of_mem_ofNat hmem) (by decide)
  cases m with
  | ofNat k =>
    cases n with
    | ofNat l => rw [ofNat_inj h]
    | negSucc l => exact absurd h (hsign k l)
  | negSucc k =>
    cases n with
    | ofNat l => exact absurd h.symm (hsign l k)
    | negSucc l =>
      have hnext : k + 1 = l + 1 := ofNat_inj (List.cons.inj h).2
      rw [Nat.succ.inj hnext]

end Decimal

/-! ## Blanks around a text -/

/-- The text `t` with blanks before it and behind it. -/
def Padded (cs t : List Char) : Prop :=
  ∃ left right, cs = left ++ t ++ right ∧ (∀ c ∈ left, isBlank c = true) ∧
    ∀ c ∈ right, isBlank c = true

theorem dropBlanks_append_of_blank {left : List Char} (h : ∀ c ∈ left, isBlank c = true)
    (cs : List Char) : dropBlanks (left ++ cs) = dropBlanks cs :=
  List.dropWhile_append_of_pos h

theorem dropBlanks_append_of_not_blank {t : List Char} (hne : t ≠ [])
    (h : ∀ c ∈ t, isBlank c = false) (cs : List Char) : dropBlanks (t ++ cs) = t ++ cs := by
  obtain ⟨c, t, rfl⟩ := List.exists_cons_of_ne_nil hne
  have hc : ¬isBlank c = true := by simp [h c (.head _)]
  exact List.dropWhile_cons_of_neg hc

/-- What is dropped in front are blanks. -/
theorem exists_append_dropBlanks (cs : List Char) :
    ∃ left, cs = left ++ dropBlanks cs ∧ ∀ c ∈ left, isBlank c = true :=
  ⟨cs.takeWhile isBlank, List.takeWhile_append_dropWhile.symm,
    List.all_eq_true.mp List.all_takeWhile⟩

/-- Trimming leaves a text with blanks around it. -/
theorem padded_trim (cs : List Char) : Padded cs (trim cs) := by
  obtain ⟨left, hleft, hblank⟩ := exists_append_dropBlanks cs
  -- the blanks behind the text are those before the reversed one
  obtain ⟨right, hright, hblank'⟩ := exists_append_dropBlanks (dropBlanks cs).reverse
  refine ⟨left, right.reverse, ?_, hblank, ?_⟩
  · have hend : dropBlanks cs = trim cs ++ right.reverse := by
      rw [trim, ← List.reverse_append, ← hright, List.reverse_reverse]
    rw [List.append_assoc, ← hend]
    exact hleft
  · intro c hc
    exact hblank' c (List.mem_reverse.mp hc)

/-- A text without blanks is found between blanks, also where it is empty. -/
theorem trim_eq_of_padded {cs t : List Char} (h : Padded cs t)
    (ht : ∀ c ∈ t, isBlank c = false) : trim cs = t := by
  obtain ⟨left, right, rfl, hleft, hright⟩ := h
  have hright' : ∀ c ∈ right.reverse, isBlank c = true :=
    fun c hc => hright c (List.mem_reverse.mp hc)
  have ht' : ∀ c ∈ t.reverse, isBlank c = false := fun c hc => ht c (List.mem_reverse.mp hc)
  rw [trim, List.append_assoc, dropBlanks_append_of_blank hleft]
  by_cases hne : t = []
  · -- nothing but blanks: all of them are dropped from the front
    subst hne
    have hnone : dropBlanks right = [] := by
      simpa [dropBlanks] using dropBlanks_append_of_blank hright []
    rw [List.nil_append, hnone]
    rfl
  · -- the first pass stops at the text, and the second at its end
    have hne' : t.reverse ≠ [] := by simpa using hne
    rw [dropBlanks_append_of_not_blank hne ht, List.reverse_append,
      dropBlanks_append_of_blank hright']
    have hkept := dropBlanks_append_of_not_blank hne' ht' []
    rw [List.append_nil] at hkept
    rw [hkept, List.reverse_reverse]

/-- Digits have codes between those of the blanks. -/
theorem not_isBlank_of_isDigit {c : Char} (h : c.isDigit = true) : isBlank c = false := by
  have hcode : 48 ≤ c.toNat ∧ c.toNat ≤ 57 := Char.isDigit_iff_toNat.mp h
  have hnot : ¬isBlank c = true := by
    simp only [isBlank, blankRanges, List.any_cons, List.any_nil, Bool.or_eq_true,
      Bool.and_eq_true, decide_eq_true_eq, Bool.or_false]
    omega
  simpa using hnot

theorem Decimal.Numeral.not_isBlank {cs : List Char} {n : Nat} (h : Numeral cs n) {c : Char}
    (hc : c ∈ cs) : isBlank c = false := by
  rcases h.isDigit_or_plus hc with hdigit | rfl
  · exact not_isBlank_of_isDigit hdigit
  · decide

/-- A numeral is what trimming leaves if and only if it stands between blanks. -/
theorem Decimal.Numeral.trim_eq_iff {cs t : List Char} {n : Nat} (h : Numeral t n) :
    trim cs = t ↔ Padded cs t := by
  constructor
  · rintro rfl
    exact padded_trim cs
  · intro hpadded
    exact trim_eq_of_padded hpadded fun _ => h.not_isBlank

end ScanAudit.Text
