import Mathlib.Algebra.Ring.Nat
import ScanAudit.Text.Quoted

/-!
# Quoted literals read back

The inside of a literal spells its text character by character: a character as itself, or as a
backslash and what stands behind it. A quote is always behind a backslash, so the first one that is
not ends the literal, and what follows a literal can be told from it.

* `Spelling`, `spelling_escape` — how a character stands in a literal
* `decode_flatMap_escape` — the inside of a literal read back
* `Guarded` — a text in which every quote has a backslash before it
* `guarded_flatMap_escape` — the inside of a literal is such a text
* `isPlain_of_mem_encode` — the characters of a literal
* `encode_append_inj` — a literal at the front of a text
* `IsLiteral`, `isLiteral_encode` — all that holds of a literal
-/

namespace ScanAudit.Text.Quoted

/-- The two characters that can stand around a literal. -/
def IsQuote (quote : Char) : Prop :=
  quote = '\'' ∨ quote = '"'

theorem isQuote_quoteFor (cs : List Char) : IsQuote (quoteFor cs) := by
  unfold quoteFor
  split
  · exact .inr rfl
  · exact .inl rfl

/-- Neither a control character nor a blank other than the space. -/
def IsPlain (c : Char) : Prop :=
  isControl c = false ∧ (isBlank c = true → c = ' ')

instance (c : Char) : Decidable (IsPlain c) :=
  inferInstanceAs (Decidable (_ ∧ _))

/-- The characters that stand in a literal as a backslash and one other character. -/
def pairs (quote : Char) : List (Char × Char) :=
  [('\\', '\\'), ('\n', 'n'), ('\r', 'r'), ('\t', 't'), (quote, quote)]

/-- How a character stands in a literal. -/
inductive Spelling (quote : Char) : Char → List Char → Prop
  | itself {c : Char} (hslash : c ≠ '\\') (hquote : c ≠ quote) (hplain : IsPlain c) :
      Spelling quote c [c]
  | pair {c e : Char} (h : (c, e) ∈ pairs quote) : Spelling quote c ['\\', e]
  | two {c : Char} (h : c.toNat < 0x100) : Spelling quote c ('\\' :: 'x' :: hex 2 c.toNat)
  | four {c : Char} (h : c.toNat < 0x10000) : Spelling quote c ('\\' :: 'u' :: hex 4 c.toNat)

/-- Every character is spelled in one of the four ways, by the cases of the escape. -/
theorem spelling_escape (quote c : Char) : Spelling quote c (escape quote c) := by
  unfold escape
  split
  · next h => exact .pair (by simp [pairs, h])
  split
  · next h => exact .pair (by simp [pairs, h])
  split
  · next h => exact .pair (by simp [pairs, h])
  split
  · next h => exact .pair (by simp [pairs, h])
  split
  · next h => exact .pair (by simp [pairs, h])
  split
  · next h =>
    split
    · next hsmall => exact .two hsmall
    · -- a control character or a blank has at most four digits
      refine .four (toNat_lt_of_isBlank_or_isControl ?_)
      cases hc : isControl c with
      | true => rfl
      | false =>
        rw [hc, Bool.false_or, Bool.and_eq_true] at h
        exact h.1
  · next hslash _ _ _ hquote h =>
    rw [Bool.not_eq_true, Bool.or_eq_false_iff] at h
    refine .itself hslash hquote ⟨h.1, fun hblank => ?_⟩
    simpa [hblank] using h.2

/-! ## Hexadecimal digits -/

theorem hexDigit?_digitChar : ∀ d < 16, hexDigit? (Nat.digitChar d) = some d := by
  decide

/-- The lowest digits of a number are those of its rest. -/
theorem hexValue?_hex (width n : Nat) : hexValue? (hex width n) = some (n % 16 ^ width) := by
  induction width generalizing n with
  | zero => simp [hex, hexValue?, Nat.mod_one]
  | succ width ih =>
    have hlast : hexDigit? (Nat.digitChar (n % 16)) = some (n % 16) :=
      hexDigit?_digitChar _ (Nat.mod_lt n (by decide))
    have hfront : hexValue? (hex width (n / 16)) = some (n / 16 % 16 ^ width) := ih (n / 16)
    have hsum : 16 * (n / 16 % 16 ^ width) + n % 16 = n % 16 ^ (width + 1) := by
      -- the last digit is the remainder, and the others are the quotient
      rw [Nat.pow_succ, Nat.mul_comm (16 ^ width) 16, Nat.mod_mul, Nat.add_comm]
    unfold hexValue? at hfront ⊢
    rw [hex, List.foldlM_append, hfront]
    simp [hlast, hsum]

theorem exists_of_mem_hex {width n : Nat} {c : Char} (h : c ∈ hex width n) :
    ∃ d < 16, c = Nat.digitChar d := by
  induction width generalizing n with
  | zero => cases h
  | succ width ih =>
    rcases List.mem_append.mp h with h | h
    · exact ih h
    · exact ⟨n % 16, Nat.mod_lt n (by decide), List.mem_singleton.mp h⟩

/-- No digit is a backslash or a quote, or one of the characters that are escaped. -/
theorem digitChar_cases : ∀ d < 16, Nat.digitChar d ≠ '\\' ∧ Nat.digitChar d ≠ '\'' ∧
    Nat.digitChar d ≠ '"' ∧ IsPlain (Nat.digitChar d) := by
  decide

/-! ## The inside of a literal, read back -/

section Reading

variable {quote c e : Char}

theorem decode_itself (hslash : c ≠ '\\') (hquote : c ≠ quote) (rest : List Char) :
    decode quote (c :: rest) = (decode quote rest).map (c :: ·) := by
  rw [decode.eq_def]
  split
  · next h => cases h
  · next h => exact absurd (List.cons.inj h).1 hslash
  · next h => exact absurd (List.cons.inj h).1 hslash
  · next h => exact absurd (List.cons.inj h).1 hslash
  · next h =>
    obtain ⟨rfl, rfl⟩ := List.cons.inj h
    simp [hslash, hquote]

theorem decode_pair (hquote : IsQuote quote) (h : (c, e) ∈ pairs quote) (rest : List Char) :
    decode quote ('\\' :: e :: rest) = (decode quote rest).map (c :: ·) := by
  simp only [pairs, List.mem_cons, List.not_mem_nil, or_false, Prod.mk.injEq] at h
  rcases h with ⟨rfl, rfl⟩ | ⟨rfl, rfl⟩ | ⟨rfl, rfl⟩ | ⟨rfl, rfl⟩ | ⟨rfl, rfl⟩
  · cases hrest : decode quote rest <;> simp [decode, hrest]
  · cases hrest : decode quote rest <;> simp [decode, hrest]
  · cases hrest : decode quote rest <;> simp [decode, hrest]
  · cases hrest : decode quote rest <;> simp [decode, hrest]
  · -- the quote itself, of either kind
    rcases hquote with rfl | rfl
    · cases hrest : decode '\'' rest <;> simp [decode, hrest]
    · cases hrest : decode '"' rest <;> simp [decode, hrest]

theorem decode_two (quote : Char) (n : Nat) (rest : List Char) :
    decode quote ('\\' :: 'x' :: (hex 2 n ++ rest)) =
      (decode quote rest).map (Char.ofNat (n % 0x100) :: ·) := by
  have hvalue : hexValue? (hex 2 n) = some (n % 0x100) := hexValue?_hex 2 n
  have hdigits : hex 2 n = [Nat.digitChar (n / 16 % 16), Nat.digitChar (n % 16)] := rfl
  rw [hdigits] at hvalue ⊢
  simp only [List.cons_append, List.nil_append, decode, hvalue]
  cases decode quote rest <;> rfl

theorem decode_four (quote : Char) (n : Nat) (rest : List Char) :
    decode quote ('\\' :: 'u' :: (hex 4 n ++ rest)) =
      (decode quote rest).map (Char.ofNat (n % 0x10000) :: ·) := by
  have hvalue : hexValue? (hex 4 n) = some (n % 0x10000) := hexValue?_hex 4 n
  have hdigits : hex 4 n = [Nat.digitChar (n / 16 / 16 / 16 % 16),
      Nat.digitChar (n / 16 / 16 % 16), Nat.digitChar (n / 16 % 16), Nat.digitChar (n % 16)] := rfl
  rw [hdigits] at hvalue ⊢
  simp only [List.cons_append, List.nil_append, decode, hvalue]
  cases decode quote rest <;> rfl

/-- A spelling at the front is read back as its character, and the rest by itself. -/
theorem Spelling.decode_append (hquote : IsQuote quote) {cs : List Char}
    (h : Spelling quote c cs) (rest : List Char) :
    decode quote (cs ++ rest) = (decode quote rest).map (c :: ·) := by
  cases h with
  | itself hslash hne => exact decode_itself hslash hne rest
  | pair h => exact decode_pair hquote h rest
  | two h =>
    -- the code fits into its digits
    have hread := decode_two quote c.toNat rest
    rwa [Nat.mod_eq_of_lt h, Char.ofNat_toNat] at hread
  | four h =>
    have hread := decode_four quote c.toNat rest
    rwa [Nat.mod_eq_of_lt h, Char.ofNat_toNat] at hread

/-- By induction over the text, character by character. -/
theorem decode_flatMap_escape (hquote : IsQuote quote) (cs : List Char) :
    decode quote (cs.flatMap (escape quote)) = some cs := by
  induction cs with
  | nil => rfl
  | cons c cs ih =>
    rw [List.flatMap_cons, (spelling_escape quote c).decode_append hquote, ih]
    rfl

end Reading

/-! ## The end of a literal

A quote that stands for itself has a backslash before it. So the quote that ends a literal is the
first one without, and the inside and what follows the literal are determined by a text. -/

/-- A backslash takes the next character with it, and no other character is the quote. -/
inductive Guarded (quote : Char) : List Char → Prop
  | nil : Guarded quote []
  | itself {c : Char} {cs : List Char} (hslash : c ≠ '\\') (hquote : c ≠ quote)
      (h : Guarded quote cs) : Guarded quote (c :: cs)
  | pair {c : Char} {cs : List Char} (h : Guarded quote cs) : Guarded quote ('\\' :: c :: cs)

section Ends

variable {quote : Char}

/-- By induction along the first text, whose last backslash has its character. -/
theorem Guarded.append {cs ds : List Char} (h : Guarded quote cs) (h' : Guarded quote ds) :
    Guarded quote (cs ++ ds) := by
  induction h with
  | nil => exact h'
  | itself hslash hquote _ ih => exact .itself hslash hquote ih
  | pair _ ih => exact .pair ih

/-- The first quote without a backslash ends the inside. By induction along both insides, which
begin in the same way as long as neither has ended. -/
theorem Guarded.append_cons_inj (hquote : quote ≠ '\\') {cs ds rest rest' : List Char}
    (h : Guarded quote cs) (h' : Guarded quote ds)
    (heq : cs ++ quote :: rest = ds ++ quote :: rest') : cs = ds ∧ rest = rest' := by
  induction h generalizing ds with
  | nil =>
    cases h' with
    -- both end here
    | nil => exact ⟨rfl, (List.cons.inj heq).2⟩
    | itself _ hne _ => exact absurd (List.cons.inj heq).1.symm hne
    | pair _ => exact absurd (List.cons.inj heq).1 hquote
  | itself hslash hne _ ih =>
    cases h' with
    | nil => exact absurd (List.cons.inj heq).1 hne
    | itself _ _ h' =>
      obtain ⟨rfl, htail⟩ := List.cons.inj heq
      obtain ⟨rfl, hrest⟩ := ih h' htail
      exact ⟨rfl, hrest⟩
    | pair _ => exact absurd (List.cons.inj heq).1 hslash
  | pair _ ih =>
    cases h' with
    | nil => exact absurd (List.cons.inj heq).1.symm hquote
    | itself hslash _ _ => exact absurd (List.cons.inj heq).1.symm hslash
    | pair h' =>
      obtain ⟨rfl, htail⟩ := List.cons.inj (List.cons.inj heq).2
      obtain ⟨rfl, hrest⟩ := ih h' htail
      exact ⟨rfl, hrest⟩

/-- Digits are neither backslashes nor quotes. -/
theorem guarded_hex (hquote : IsQuote quote) (width n : Nat) : Guarded quote (hex width n) := by
  have hall : ∀ cs : List Char, (∀ c ∈ cs, ∃ d < 16, c = Nat.digitChar d) → Guarded quote cs := by
    intro cs hcs
    induction cs with
    | nil => exact .nil
    | cons c cs ih =>
      obtain ⟨d, hd, rfl⟩ := hcs c (.head _)
      obtain ⟨hslash, hsingle, hdouble, -⟩ := digitChar_cases d hd
      refine .itself hslash ?_ (ih fun e he => hcs e (.tail _ he))
      rcases hquote with rfl | rfl
      · exact hsingle
      · exact hdouble
  exact hall _ fun c hc => exists_of_mem_hex hc

/-- A spelling has no quote on its own. -/
theorem Spelling.guarded (hquote : IsQuote quote) {c : Char} {cs : List Char}
    (h : Spelling quote c cs) : Guarded quote cs := by
  cases h with
  | itself hslash hne => exact .itself hslash hne .nil
  | pair _ => exact .pair .nil
  | two _ => exact .pair (guarded_hex hquote 2 c.toNat)
  | four _ => exact .pair (guarded_hex hquote 4 c.toNat)

/-- So an escaped text has none. -/
theorem guarded_flatMap_escape (hquote : IsQuote quote) (cs : List Char) :
    Guarded quote (cs.flatMap (escape quote)) := by
  induction cs with
  | nil => exact .nil
  | cons c cs ih => exact ((spelling_escape quote c).guarded hquote).append ih

end Ends

/-- A literal at the front of a text: where it ends is determined, and its inside is read back. -/
theorem encode_append_inj {cs ds rest rest' : List Char}
    (h : encode cs ++ rest = encode ds ++ rest') : cs = ds ∧ rest = rest' := by
  have hquote := isQuote_quoteFor cs
  have hslash : quoteFor cs ≠ '\\' := by rcases hquote with h | h <;> rw [h] <;> decide
  simp only [encode, List.cons_append, List.append_assoc, List.nil_append] at h
  obtain ⟨hsame, hinside⟩ := List.cons.inj h
  -- both literals have the same quote, so the same characters are escaped
  rw [← hsame] at hinside
  obtain ⟨hescaped, hrest⟩ := (guarded_flatMap_escape hquote cs).append_cons_inj hslash
    (guarded_flatMap_escape hquote ds) hinside
  have hread : some cs = some ds := by
    -- the two insides are the same, and are read back as one text
    rw [← decode_flatMap_escape hquote cs, hescaped, decode_flatMap_escape hquote ds]
  exact ⟨Option.some.inj hread, hrest⟩

/-! ## The characters of a literal -/

/-- What is not plain is spelled with plain characters. -/
theorem Spelling.isPlain {quote c : Char} (hquote : IsQuote quote) {cs : List Char}
    (h : Spelling quote c cs) : ∀ d ∈ cs, IsPlain d := by
  have hhex {width n : Nat} : ∀ d ∈ hex width n, IsPlain d := by
    intro d hd
    obtain ⟨digit, hdigit, rfl⟩ := exists_of_mem_hex hd
    exact (digitChar_cases digit hdigit).2.2.2
  have hslash : IsPlain '\\' := by decide
  cases h with
  | itself _ _ hplain => exact List.forall_mem_singleton.mpr hplain
  | pair h =>
    have hpairs : ∀ p ∈ pairs quote, IsPlain p.2 := by
      rcases hquote with rfl | rfl <;> decide
    exact List.forall_mem_cons.mpr ⟨hslash, List.forall_mem_singleton.mpr (hpairs _ h)⟩
  | two _ =>
    exact List.forall_mem_cons.mpr ⟨hslash, List.forall_mem_cons.mpr ⟨by decide, hhex⟩⟩
  | four _ =>
    exact List.forall_mem_cons.mpr ⟨hslash, List.forall_mem_cons.mpr ⟨by decide, hhex⟩⟩

/-- So all characters of a literal are plain, the quotes too. -/
theorem isPlain_of_mem_encode {cs : List Char} {d : Char} (h : d ∈ encode cs) : IsPlain d := by
  have hquote := isQuote_quoteFor cs
  have hplain : IsPlain (quoteFor cs) := by rcases hquote with h | h <;> rw [h] <;> decide
  simp only [encode, List.cons_append, List.mem_cons, List.mem_append, List.mem_flatMap,
    List.not_mem_nil, or_false] at h
  rcases h with rfl | ⟨c, -, hd⟩ | rfl
  · exact hplain
  · exact (spelling_escape _ c).isPlain hquote d hd
  · exact hplain

/-! ## The literal of a text -/

/-- A literal that has the quote `quote` around `inside` and stands for `text`. -/
structure IsLiteral (text : List Char) (quote : Char) (inside literal : List Char) : Prop where
  ends : literal = quote :: (inside ++ [quote])
  isQuote : IsQuote quote
  double_iff : quote = '"' ↔ '\'' ∈ text ∧ '"' ∉ text
  /-- No quote of the inside stands for itself: each is taken by a backslash before it. -/
  guarded : Guarded quote inside
  plain : ∀ c ∈ inside, IsPlain c
  decode_eq : decode quote inside = some text

/-- The literal of a text has all that is asked of one. -/
theorem isLiteral_encode (text : List Char) :
    IsLiteral text (quoteFor text) (text.flatMap (escape (quoteFor text))) (encode text) where
  ends := by rw [encode, List.cons_append]
  isQuote := isQuote_quoteFor text
  double_iff := quoteFor_eq_doubleQuote_iff
  guarded := guarded_flatMap_escape (isQuote_quoteFor text) text
  plain c hc := by
    have hmem : c ∈ encode text := by
      rw [encode, List.cons_append]
      exact List.mem_cons_of_mem _ (List.mem_append_left _ hc)
    exact isPlain_of_mem_encode hmem
  decode_eq := decode_flatMap_escape (isQuote_quoteFor text) text

/-- A single quote alone makes the quotes double; a backslash and two blanks are escaped. -/
example : String.ofList (encode "it's\\\t\u2028".toList) = "\"it's\\\\\\t\\u2028\"" := by
  decide

end ScanAudit.Text.Quoted
