import ScanAudit.Text.Lossy

/-!
# Paths

A path is a sequence of bytes that need not be a text: where it leads is a matter of its bytes. It
becomes a text when a reader is told of it, and then what is not UTF-8 is replaced.

* `Path` — a path, or one of the names that it consists of
* `Path.ofString`, `Path.text?` — the path that a text is, and the text that a path is
* `Path.display` — a path for a reader
* `Path.names` — the names in a path
-/

namespace ScanAudit

structure Path where
  bytes : List UInt8
  deriving DecidableEq

namespace Path

def ofString (text : String) : Path :=
  ⟨text.toUTF8.data.toList⟩

/-- The text that a path is in UTF-8, if it is one. -/
def text? (path : Path) : Option String :=
  String.fromUTF8? ⟨path.bytes.toArray⟩

/-- A path for a reader. -/
def display (path : Path) : String :=
  path.text?.getD (String.ofList (Text.Lossy.decode path.bytes))

/-- The name that leads up. -/
def parent : Path := ofString ".."

/-- The byte that keeps the names in a path apart, and that begins the paths from the root. -/
def slash : UInt8 := 0x2F

/-- The names that a path consists of, with an empty one where a slash ends it. -/
def names (path : Path) : List Path :=
  (path.bytes.splitOn slash).map Path.mk

@[simp] theorem text?_ofString (text : String) : (ofString text).text? = some text := by
  have hbytes : (⟨text.toUTF8.data.toList.toArray⟩ : ByteArray) = text.toByteArray := rfl
  rw [text?, ofString, hbytes, String.fromUTF8?, dif_pos text.isValidUTF8]
  rfl

theorem ofString_of_text? {path : Path} {text : String} (h : path.text? = some text) :
    ofString text = path := by
  unfold text? String.fromUTF8? at h
  split at h
  · obtain rfl := Option.some.inj h
    rfl
  · cases h

end Path

end ScanAudit
