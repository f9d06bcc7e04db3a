import ScanAudit.Json.Basic
import ScanAudit.Text.Decimal
import ScanAudit.Text.Quoted

/-!
# Writing JSON text

Values are written without space between their parts. In a string the quote, the backslash and
the characters below the space are escaped, and all others stand for themselves.

* `Writer.value` — the text of a value
* `Json.write` — the same as a string
-/

namespace ScanAudit.Json

namespace Writer

open Text

def escape (c : Char) : List Char :=
  if c = '"' then ['\\', '"']
  else if c = '\\' then ['\\', '\\']
  else if c.toNat < 0x20 then '\\' :: 'u' :: Quoted.hex 4 c.toNat
  else [c]

def string (s : String) : List Char :=
  '"' :: s.toList.flatMap escape ++ ['"']

mutual

def value : Json → List Char
  | .null => "null".toList
  | .bool true => "true".toList
  | .bool false => "false".toList
  | .int n => Decimal.ofInt n
  | .decimal mantissa exponent => Decimal.ofInt mantissa ++ 'e' :: Decimal.ofInt exponent
  | .str s => string s
  | .arr [] => ['[', ']']
  | .arr (item :: rest) => '[' :: value item ++ items rest
  | .obj [] => ['\x7b', '\x7d']
  | .obj ((name, v) :: rest) => '\x7b' :: string name ++ ':' :: value v ++ fields rest

/-- The items of an array after the first one, and its closing bracket. -/
def items : List Json → List Char
  | [] => [']']
  | item :: rest => ',' :: value item ++ items rest

/-- The fields of an object after the first one, and its closing brace. -/
def fields : List (String × Json) → List Char
  | [] => ['\x7d']
  | (name, v) :: rest => ',' :: string name ++ ':' :: value v ++ fields rest

end

end Writer

def write (value : Json) : String :=
  String.ofList (Writer.value value)

end ScanAudit.Json
