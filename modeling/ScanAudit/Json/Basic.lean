/-!
# JSON values

An object keeps its fields in the order in which they were written; two objects that differ only
in that order mean the same. A number is an integer, or it was written with a fraction or an
exponent; the two are never equal, as a reader of integers takes only the first.

* `Json` — the values
* `Json.field?` — the value of a field
-/

namespace ScanAudit

inductive Json
  | null
  | bool (b : Bool)
  | int (n : Int)
  /-- The number `mantissa * 10 ^ exponent`, written with a fraction or an exponent. -/
  | decimal (mantissa exponent : Int)
  | str (s : String)
  | arr (items : List Json)
  | obj (fields : List (String × Json))

namespace Json

abbrev Fields := List (String × Json)

def field? (fields : Fields) (name : String) : Option Json :=
  fields.lookup name

/-- The fields with one more at the end; it replaces an earlier one of the same name. -/
def setField (fields : Fields) (name : String) (value : Json) : Fields :=
  fields.filter (·.1 != name) ++ [(name, value)]

/-- A field is looked for from the front, and the first of its name is taken. -/
theorem field?_cons (name n : String) (value : Json) (fields : Fields) :
    field? ((n, value) :: fields) name = if name = n then some value else field? fields name := by
  rw [field?, List.lookup_cons, field?]
  by_cases h : name = n
  · simp [h]
  · simp [h, beq_eq_false_iff_ne.mpr h]

end Json

end ScanAudit
