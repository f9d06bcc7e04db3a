import ScanAudit.Error
import ScanAudit.Names
import ScanAudit.Path

/-!
# Files

An audit sees the files around it only as what stands under a path, if that is a file.

* `File` — a file's content, and the text in it
* `Files` — the file under each path
* `Location`, `Directory` — a directory with its files, and how paths lead through it
-/

namespace ScanAudit

structure File where
  content : ByteArray

def File.text? (file : File) : Option String :=
  String.fromUTF8? file.content

def File.ofText (text : String) : File :=
  ⟨text.toUTF8⟩

abbrev Files := Path → Option File

/-- The text of a file that has to be there. -/
def Files.readText (files : Files) (path : Path) : Except AuditError String :=
  match files path with
  | none => .error (.missingInput path)
  | some file =>
    match file.text? with
    | none => .error (.stream .notText)
    | some text => .ok text

/-- The names that lead to a place from the top of a directory. Places above the top begin with
as many double dots as they are above it. -/
abbrev Location := List Path

/-- Where a name in a path leads from a location. -/
def Location.next (location : Location) (name : Path) : Location :=
  if name = .ofString "" ∨ name = .ofString "." then location
  else if name = .parent then
    match location.getLast? with
    | none => [.parent]
    | some last => if last = .parent then location ++ [.parent] else location.dropLast
  else location ++ [name]

/-- A directory, as the locations of what is in it; `none` stands for a directory. A directory on
the way to a file need not be listed. -/
structure Directory where
  entries : List (Location × Option File)

namespace Directory

def empty : Directory := ⟨[]⟩

/-- The top and what is above it are directories, and so is what something lies below. -/
def isDirectory (d : Directory) (location : Location) : Bool :=
  location.all (· == .parent) ||
    d.entries.any fun e =>
      location.isPrefixOf e.1 && (e.1.length != location.length || e.2.isNone)

/-- The directory with a file or a directory at a location, in the place of what was there. -/
def set (d : Directory) (location : Location) (entry : Option File) : Directory :=
  ⟨d.entries.filter (·.1 != location) ++ [(location, entry)]⟩

/-- The directory with a file or a directory at the end of a path from a location. Directories on
the way are made, also those that the path only passes through. -/
def putFrom (entry : Option File) (here : Location) (d : Directory) : List Path → Directory
  | [] => d.set here entry
  | [name] => d.set (here.next name) entry
  | name :: rest =>
    let there := here.next name
    putFrom entry there (if d.isDirectory there then d else d.set there none) rest

def put (d : Directory) (path : Path) (entry : Option File) : Directory :=
  d.putFrom entry [] path.names

/-- The file that a path leads to from a location. A file has nothing below it. -/
def follow (d : Directory) (here : Location) : List Path → Option File
  | [] => none
  | name :: rest =>
    let there := here.next name
    match d.entries.lookup there with
    | some (some file) => if rest.isEmpty then some file else none
    | _ => if d.isDirectory there then follow d there rest else none

/-- The length in bytes from which on no path leads anywhere. -/
def pathLimit : Nat := 4096

/-- The file under a relative path. -/
def file? (d : Directory) (path : Path) : Option File :=
  if path.bytes.head? = some Path.slash ∨ pathLimit ≤ path.bytes.length then none
  else d.follow [] path.names

/-- The names at the top for a reader, sorted. -/
def topNames (d : Directory) : List String :=
  Names.sorted (((d.entries.filterMap (·.1.head?)).filter (· != .parent)).map Path.display)

end Directory

end ScanAudit
