/-!
# Keywords in any letter case

A keyword is written in upper case and matches a text whose ASCII letters may be in either case;
all other characters match only themselves.

* `upper` — a text with its ASCII letters in upper case
* `startsWith`, `occurs` — whether a keyword begins a text, or is somewhere in it
* `after?` — what follows the first occurrence of a keyword
-/

namespace ScanAudit.Text

def upper (cs : List Char) : List Char :=
  cs.map Char.toUpper

namespace Keyword

def startsWith : List Char → List Char → Bool
  | [], _ => true
  | _ :: _, [] => false
  | k :: keyword, c :: cs => k == c.toUpper && startsWith keyword cs

def occurs (keyword : List Char) : List Char → Bool
  | [] => keyword.isEmpty
  | c :: cs => startsWith keyword (c :: cs) || occurs keyword cs

def after? (keyword : List Char) : List Char → Option (List Char)
  | [] => if keyword.isEmpty then some [] else none
  | c :: cs =>
    if startsWith keyword (c :: cs) then some ((c :: cs).drop keyword.length)
    else after? keyword cs

/-- A keyword begins a text as it begins its upper case. -/
theorem startsWith_eq_isPrefixOf_upper (keyword cs : List Char) :
    startsWith keyword cs = keyword.isPrefixOf (upper cs) := by
  induction keyword generalizing cs with
  | nil => simp [startsWith]
  | cons k keyword ih =>
    cases cs with
    | nil => rfl
    | cons c cs => simp [startsWith, upper, List.isPrefixOf, ih]

/-- Something, maybe the empty text, follows a keyword wherever it occurs. -/
theorem isSome_after?_eq_occurs (keyword cs : List Char) :
    (after? keyword cs).isSome = occurs keyword cs := by
  induction cs with
  | nil => cases keyword <;> simp [after?, occurs]
  | cons c cs ih =>
    unfold after? occurs
    split
    · next h => simp [h]
    · next h => simp [h, ih]

end Keyword

end ScanAudit.Text
