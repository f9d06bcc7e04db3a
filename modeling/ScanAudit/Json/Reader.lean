import ScanAudit.Json.Basic
import ScanAudit.Text.Decimal
import ScanAudit.Text.Search

/-!
# Reading JSON text

The readers take a text apart from the left and hand on what they leave. Values nest, so the
reader of values spends one unit of fuel per value, item and field; a text has fewer of those than
characters, which is the fuel that `read?` gives.

* `Reader.string?` — the rest of a string after its opening quote, escapes resolved
* `Reader.number?` — a number
* `Reader.value?` — any value
* `Json.read?` — the value that a whole text is
-/

namespace ScanAudit.Json

namespace Reader

open Text

def isSpace (c : Char) : Bool :=
  c = ' ' || c = '\t' || c = '\n' || c = '\r'

def skipSpace (cs : List Char) : List Char :=
  cs.dropWhile isSpace

def hexDigit? (c : Char) : Option Nat :=
  if c.isDigit then some (c.toNat - '0'.toNat)
  else if 'a' ≤ c ∧ c ≤ 'f' then some (c.toNat - 'a'.toNat + 10)
  else if 'A' ≤ c ∧ c ≤ 'F' then some (c.toNat - 'A'.toNat + 10)
  else none

def codeUnit? (a b c d : Char) : Option Nat := do
  let a ← hexDigit? a
  let b ← hexDigit? b
  let c ← hexDigit? c
  let d ← hexDigit? d
  some (((a * 16 + b) * 16 + c) * 16 + d)

/-- The code points and escaped code units of a string up to its closing quote, and the rest. -/
def units? : List Char → Option (List Nat × List Char)
  | [] => none
  | '"' :: cs => some ([], cs)
  | '\\' :: 'u' :: a :: b :: c :: d :: cs => do
    let unit ← codeUnit? a b c d
    let (units, rest) ← units? cs
    some (unit :: units, rest)
  | '\\' :: c :: cs => do
    let escaped ← [('"', '"'), ('\\', '\\'), ('/', '/'), ('b', '\x08'), ('f', '\x0c'),
      ('n', '\n'), ('r', '\r'), ('t', '\t')].lookup c
    let (units, rest) ← units? cs
    some (escaped.toNat :: units, rest)
  | c :: cs =>
    if c.toNat < 0x20 then none
    else do
      let (units, rest) ← units? cs
      some (c.toNat :: units, rest)

/-- The characters of a string: a high surrogate and the low one after it are one character, and
neither stands alone. -/
def joinUnits? : List Nat → Option (List Char)
  | [] => some []
  | [unit] => if unit.isValidChar then some [Char.ofNat unit] else none
  | high :: low :: units =>
    if 0xD800 ≤ high ∧ high ≤ 0xDBFF then
      if 0xDC00 ≤ low ∧ low ≤ 0xDFFF then
        (joinUnits? units).map
          (Char.ofNat (0x10000 + (high - 0xD800) * 0x400 + (low - 0xDC00)) :: ·)
      else none
    else if high.isValidChar then (joinUnits? (low :: units)).map (Char.ofNat high :: ·)
    else none

def string? (cs : List Char) : Option (String × List Char) := do
  let (units, rest) ← units? cs
  let text ← joinUnits? units
  some (String.ofList text, rest)

/-- One or more digits, and the rest. -/
def digits? (cs : List Char) : Option (List Char × List Char) :=
  match cs.takeWhile Char.isDigit with
  | [] => none
  | digits => some (digits, cs.dropWhile Char.isDigit)

/-- The digits of a fraction, if there is one. -/
def fraction? : List Char → Option (Option (List Char) × List Char)
  | '.' :: cs => (digits? cs).map fun (digits, rest) => (some digits, rest)
  | cs => some (none, cs)

/-- The exponent, if there is one. -/
def exponent? : List Char → Option (Option Int × List Char)
  | e :: cs =>
    if e = 'e' ∨ e = 'E' then
      let (sign, cs) : Int × List Char := match cs with
        | '-' :: cs => (-1, cs)
        | '+' :: cs => (1, cs)
        | cs => (1, cs)
      (digits? cs).map fun (digits, rest) => (some (sign * Nat.ofDigitChars 10 digits 0), rest)
    else some (none, e :: cs)
  | [] => some (none, [])

/-- A whole part without leading zeros, then a fraction and an exponent if there are any. -/
def number? (cs : List Char) : Option (Json × List Char) := do
  let (sign, cs) : Int × List Char := match cs with
    | '-' :: cs => (-1, cs)
    | cs => (1, cs)
  let (whole, cs) ← digits? cs
  if whole.head? = some '0' ∧ whole.length ≠ 1 then none
  else
    let (fraction, cs) ← fraction? cs
    let (exponent, cs) ← exponent? cs
    match fraction, exponent with
    | none, none => some (.int (sign * Nat.ofDigitChars 10 whole 0), cs)
    | _, _ =>
      let fraction := fraction.getD []
      let mantissa := sign * Nat.ofDigitChars 10 (whole ++ fraction) 0
      some (.decimal mantissa (exponent.getD 0 - fraction.length), cs)

mutual

def value? : Nat → List Char → Option (Json × List Char)
  | 0, _ => none
  | fuel + 1, cs =>
    match skipSpace cs with
    | '"' :: cs => (string? cs).map fun (s, rest) => (.str s, rest)
    | '[' :: cs =>
      match skipSpace cs with
      | ']' :: rest => some (.arr [], rest)
      | cs => (items? fuel cs).map fun (items, rest) => (.arr items, rest)
    | '{' :: cs =>
      match skipSpace cs with
      | '}' :: rest => some (.obj [], rest)
      | cs => (fields? fuel [] cs).map fun (fields, rest) => (.obj fields, rest)
    | cs =>
      match dropStart? "null".toList cs with
      | some rest => some (.null, rest)
      | none =>
        match dropStart? "true".toList cs with
        | some rest => some (.bool true, rest)
        | none =>
          match dropStart? "false".toList cs with
          | some rest => some (.bool false, rest)
          | none => number? cs

/-- The items of an array, after its opening bracket. -/
def items? : Nat → List Char → Option (List Json × List Char)
  | 0, _ => none
  | fuel + 1, cs => do
    let (item, rest) ← value? fuel cs
    match skipSpace rest with
    | ']' :: rest => some ([item], rest)
    | ',' :: rest => (items? fuel rest).map fun (items, rest) => (item :: items, rest)
    | _ => none

/-- The fields of an object, after its opening bracket and the given fields. -/
def fields? : Nat → Fields → List Char → Option (Fields × List Char)
  | 0, _, _ => none
  | fuel + 1, fields, cs =>
    match skipSpace cs with
    | '"' :: cs => do
      let (name, rest) ← string? cs
      match skipSpace rest with
      | ':' :: rest =>
        let (value, rest) ← value? fuel rest
        let fields := setField fields name value
        match skipSpace rest with
        | '}' :: rest => some (fields, rest)
        | ',' :: rest => fields? fuel fields rest
        | _ => none
      | _ => none
    | _ => none

end

end Reader

/-- The value that a text is, with nothing but space around it. -/
def read? (text : String) : Option Json := do
  let cs := text.toList
  let (value, rest) ← Reader.value? (cs.length + 1) cs
  if Reader.skipSpace rest = [] then some value else none

end ScanAudit.Json
