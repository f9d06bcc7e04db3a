import ScanAudit.Text.Blank

/-!
# Quoted literals

A quoted literal holds any text on one line: what would end the literal or the line, and every
character that is a control character or a blank other than the space, is escaped.

* `encode` — the literal of a text
* `decode` — the text inside a literal, read back from the escapes
-/

namespace ScanAudit.Text.Quoted

/-- The double quote where it saves escaping: the text has a single quote and no double quote. -/
def quoteFor (cs : List Char) : Char :=
  if cs.contains '\'' && !cs.contains '"' then '"' else '\''

/-- The lowest `width` hexadecimal digits of a number, in lower case. -/
def hex : Nat → Nat → List Char
  | 0, _ => []
  | width + 1, n => hex width (n / 16) ++ [Nat.digitChar (n % 16)]

def escape (quote c : Char) : List Char :=
  if c = '\\' then ['\\', '\\']
  else if c = '\n' then ['\\', 'n']
  else if c = '\r' then ['\\', 'r']
  else if c = '\t' then ['\\', 't']
  else if c = quote then ['\\', c]
  else if isControl c || (isBlank c && c != ' ') then
    if c.toNat < 0x100 then '\\' :: 'x' :: hex 2 c.toNat else '\\' :: 'u' :: hex 4 c.toNat
  else [c]

def encode (cs : List Char) : List Char :=
  let quote := quoteFor cs
  quote :: cs.flatMap (escape quote) ++ [quote]

def hexDigit? (c : Char) : Option Nat :=
  if c.isDigit then some (c.toNat - '0'.toNat)
  else if 'a' ≤ c ∧ c ≤ 'f' then some (c.toNat - 'a'.toNat + 10)
  else none

def hexValue? (cs : List Char) : Option Nat :=
  cs.foldlM (fun n c => (hexDigit? c).map (16 * n + ·)) 0

/-- The text that the inside of a literal stands for. A backslash is followed by itself, by the
quote, by `n`, `r` or `t`, or by `x` or `u` and two or four hexadecimal digits. -/
def decode (quote : Char) : List Char → Option (List Char)
  | [] => some []
  | '\\' :: 'x' :: a :: b :: cs => do
    let n ← hexValue? [a, b]
    let rest ← decode quote cs
    some (Char.ofNat n :: rest)
  | '\\' :: 'u' :: a :: b :: c :: d :: cs => do
    let n ← hexValue? [a, b, c, d]
    let rest ← decode quote cs
    some (Char.ofNat n :: rest)
  | '\\' :: c :: cs => do
    let rest ← decode quote cs
    if c = '\\' then some ('\\' :: rest)
    else if c = 'n' then some ('\n' :: rest)
    else if c = 'r' then some ('\r' :: rest)
    else if c = 't' then some ('\t' :: rest)
    else if c = quote then some (quote :: rest)
    else none
  | c :: cs => if c = '\\' || c = quote then none else (decode quote cs).map (c :: ·)

/-- Double quotes are the exception: they need a reason, and must not have to be escaped. -/
theorem quoteFor_eq_doubleQuote_iff {cs : List Char} :
    quoteFor cs = '"' ↔ '\'' ∈ cs ∧ '"' ∉ cs := by
  unfold quoteFor
  split <;> simp_all

end ScanAudit.Text.Quoted
