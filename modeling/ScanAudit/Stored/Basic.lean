import ScanAudit.Json.Basic

/-!
# Stored values

Values are stored as JSON. A reader takes an object by the names of its fields and leaves alone
those it does not know; a field that may be absent may also be null, and any other has to be
there. An array stands for an object if it has all the fields and nothing else, in their order.
Integers are JSON integers within the range of 64 bits.

* `asString?`, `asBool?`, `asNatural?`, `asUInt64?`, `asInt64?`, `asName?`, … — the reader of each
  kind of value
* `asRecord?` — the fields of an object or of an array in its place
* `required?`, `optional?` — the reader of a field
-/

namespace ScanAudit.Json

def asString? : Json → Option String
  | .str s => some s
  | _ => none

def asBool? : Json → Option Bool
  | .bool b => some b
  | _ => none

/-- A number without a sign that fits into 64 bits. -/
def asNatural? : Json → Option Nat
  | .int (.ofNat n) => if n < UInt64.size then some n else none
  | _ => none

def asUInt64? (value : Json) : Option UInt64 :=
  (asNatural? value).map UInt64.ofNat

/-- A number with a sign that fits into 64 bits, and so is still the same in 64 bits. -/
def asInt64? : Json → Option Int64
  | .int n =>
    let word := Int64.ofInt n
    if word.toInt = n then some word else none
  | _ => none

def asArray? : Json → Option (List Json)
  | .arr items => some items
  | _ => none

def asFields? : Json → Option Fields
  | .obj fields => some fields
  | _ => none

/-- The fields with some names: those of an object, which may have others, or the items of an array
that has one for each name. -/
def asRecord? (names : List String) : Json → Option Fields
  | .obj fields => some fields
  | .arr items => if items.length = names.length then some (names.zip items) else none
  | _ => none

/-- One of finitely many names, as a string or as the only field of an object, which holds
nothing. -/
def asName? {α : Type} (ofName? : String → Option α) : Json → Option α
  | .str name => ofName? name
  | .obj [(name, .null)] => ofName? name
  | _ => none

def required? {α : Type} (read? : Json → Option α) (fields : Fields) (name : String) : Option α :=
  (field? fields name).bind read?

def optional? {α : Type} (read? : Json → Option α) (fields : Fields) (name : String) :
    Option (Option α) :=
  match field? fields name with
  | none => some none
  | some .null => some none
  | some value => (read? value).map some

def ofNat (n : Nat) : Json :=
  .int n

def ofUInt64 (n : UInt64) : Json :=
  ofNat n.toNat

def ofInt64 (n : Int64) : Json :=
  .int n.toInt

def ofOption {α : Type} (write : α → Json) : Option α → Json
  | none => .null
  | some a => write a

theorem asInt64?_ofInt64 (n : Int64) : asInt64? (ofInt64 n) = some n := by
  simp [ofInt64, asInt64?]

/-- A number without a sign is read back if it fits into 64 bits. -/
theorem asNatural?_ofNat {n : Nat} (h : n < UInt64.size) : asNatural? (ofNat n) = some n :=
  if_pos h

/-- A word always fits. -/
theorem asUInt64?_ofUInt64 (n : UInt64) : asUInt64? (ofUInt64 n) = some n := by
  rw [asUInt64?, ofUInt64, asNatural?_ofNat n.toNat_lt, Option.map_some, UInt64.ofNat_toNat]

end ScanAudit.Json
