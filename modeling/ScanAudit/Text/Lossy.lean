/-!
# Bytes for a reader

Bytes are shown as the text that they encode in UTF-8, also where some of them encode nothing. Such
bytes are replaced: all that begin a character and stop before its end by one replacement character,
and any other byte by one of its own.

* `followers` — what can stand behind the first byte of a character
* `following` — how many bytes stand behind it as they can
* `decode` — the characters for some bytes
-/

namespace ScanAudit.Text.Lossy

def replacement : Char := '\uFFFD'

/-- The bytes behind the first one of a character, but for a few second ones. -/
def later : UInt8 × UInt8 := (0x80, 0xBF)

/-- The first bytes of the characters that have more than one, and the bytes behind them, as
intervals with both ends. The second bytes keep out longer forms than needed, surrogates, and what
is above the last code point. -/
def sequences : List ((UInt8 × UInt8) × List (UInt8 × UInt8)) :=
  [((0xC2, 0xDF), [later]), ((0xE0, 0xE0), [(0xA0, 0xBF), later]), ((0xE1, 0xEC), [later, later]),
   ((0xED, 0xED), [(0x80, 0x9F), later]), ((0xEE, 0xEF), [later, later]),
   ((0xF0, 0xF0), [(0x90, 0xBF), later, later]), ((0xF1, 0xF3), [later, later, later]),
   ((0xF4, 0xF4), [(0x80, 0x8F), later, later])]

def within (interval : UInt8 × UInt8) (byte : UInt8) : Bool :=
  interval.1 ≤ byte && byte ≤ interval.2

/-- What stands behind a first byte; nothing if it is a character by itself or begins none. -/
def followers (first : UInt8) : List (UInt8 × UInt8) :=
  ((sequences.find? fun sequence => within sequence.1 first).map (·.2)).getD []

/-- How many bytes at the start of a list lie in the intervals, one after the other. -/
def following : List (UInt8 × UInt8) → List UInt8 → Nat
  | interval :: intervals, byte :: bytes =>
    if within interval byte then following intervals bytes + 1 else 0
  | _, _ => 0

/-- The character that some bytes encode, or the replacement for them. -/
def character (bytes : List UInt8) : Char :=
  ((String.fromUTF8? ⟨bytes.toArray⟩).bind (·.toList.head?)).getD replacement

def decode : List UInt8 → List Char
  | [] => []
  | first :: rest =>
    let n := following (followers first) rest
    character (first :: rest.take n) :: decode (rest.drop n)
termination_by bytes => bytes.length
decreasing_by simp only [List.length_drop, List.length_cons]; omega

end ScanAudit.Text.Lossy
