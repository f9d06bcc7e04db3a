/-!
# Blank and control characters

Blank means the Unicode property White_Space, control the general category Cc. The log reader
trims with the first, the plan reader takes words apart with it, and the report escapes both.

* `isBlank`, `isControl` — the two classes
* `trim`, `dropBlanks` — a text without the blanks around it, or before it
* `firstWord`, `afterWord` — a text cut after its first word
-/

namespace ScanAudit.Text

/-- The code points with the property White_Space, as ranges with both ends. -/
def blankRanges : List (Nat × Nat) :=
  [(0x09, 0x0D), (0x20, 0x20), (0x85, 0x85), (0xA0, 0xA0), (0x1680, 0x1680), (0x2000, 0x200A),
   (0x2028, 0x2029), (0x202F, 0x202F), (0x205F, 0x205F), (0x3000, 0x3000)]

def isBlank (c : Char) : Bool :=
  blankRanges.any fun r => r.1 ≤ c.toNat && c.toNat ≤ r.2

def isControl (c : Char) : Bool :=
  c.toNat < 0x20 || (0x7F ≤ c.toNat && c.toNat ≤ 0x9F)

def dropBlanks (cs : List Char) : List Char :=
  cs.dropWhile isBlank

def trim (cs : List Char) : List Char :=
  (dropBlanks (dropBlanks cs).reverse).reverse

/-- The first word: what stands before the next blank, once the leading blanks are gone. It is
empty only if the text is blank. -/
def firstWord (cs : List Char) : List Char :=
  (dropBlanks cs).takeWhile (!isBlank ·)

/-- What follows the first word. -/
def afterWord (cs : List Char) : List Char :=
  (dropBlanks cs).dropWhile (!isBlank ·)

/-- Every escaped character has a code of at most four hexadecimal digits. -/
theorem toNat_lt_of_isBlank_or_isControl {c : Char} (h : (isControl c || isBlank c) = true) :
    c.toNat < 0x10000 := by
  simp only [isControl, isBlank, blankRanges, List.any_cons, List.any_nil, Bool.or_eq_true,
    Bool.and_eq_true, decide_eq_true_eq, Bool.or_false] at h
  omega

end ScanAudit.Text
