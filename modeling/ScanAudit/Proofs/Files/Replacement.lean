import ScanAudit.Files

/-!
# Files that are replaced

A path leads through a directory to a location, and the file under the path is the one that stands
there. Where a file takes the place of another, all paths lead where they led: neither of the two is
a directory, and the directories above them stay.

* `Directory.fileAt?` — the file at a location
* `Directory.locate?`, `Directory.location?` — where a path leads, if it leads to a file
* `follow_eq`, `file?_eq` — the file under a path is the one at its location
* `locate?_set_file`, `location?_set_file` — paths lead where they led
* `file?_set_file` — the files under all paths once one of them is replaced
-/

namespace ScanAudit.Directory

/-- The file at a location, if there is one and not a directory. -/
def fileAt? (d : Directory) (location : Location) : Option File :=
  (d.entries.lookup location).join

/-- The location that a path leads to from another, if there is a file. -/
def locate? (d : Directory) (here : Location) : List Path → Option Location
  | [] => none
  | name :: rest =>
    let there := here.next name
    match d.entries.lookup there with
    | some (some _) => if rest.isEmpty then some there else none
    | _ => if d.isDirectory there then locate? d there rest else none

/-- The location of the file under a relative path. -/
def location? (d : Directory) (path : Path) : Option Location :=
  if path.bytes.head? = some Path.slash ∨ pathLimit ≤ path.bytes.length then none
  else d.locate? [] path.names

theorem fileAt?_eq_some_iff {d : Directory} {location : Location} {file : File} :
    d.fileAt? location = some file ↔ d.entries.lookup location = some (some file) :=
  Option.join_eq_some_iff

/-! ## The file under a path -/

/-- What a path leads to is the file at the location that it leads to. -/
theorem follow_eq (d : Directory) (here : Location) (path : List Path) :
    d.follow here path = (d.locate? here path).bind d.fileAt? := by
  induction path generalizing here with
  | nil => rfl
  | cons name rest ih =>
    rcases hentry : d.entries.lookup (here.next name) with _ | _ | file
    case some.some =>
      -- a file: the path ends here or nowhere
      simp only [follow, locate?, hentry]
      split
      · exact (fileAt?_eq_some_iff.mpr hentry).symm
      · rfl
    -- nothing or an empty entry: the path leads on if there is a directory
    all_goals
      simp only [follow, locate?, hentry]
      split
      · exact ih (here.next name)
      · rfl

theorem file?_eq (d : Directory) (path : Path) :
    d.file? path = (d.location? path).bind d.fileAt? := by
  unfold file? location?
  split
  · rfl
  · exact follow_eq d [] path.names

/-- A path that leads to a location leads to a file there. -/
theorem fileAt?_of_locate? {d : Directory} {here location : Location} {path : List Path}
    (hlocation : d.locate? here path = some location) : ∃ file, d.fileAt? location = some file := by
  induction path generalizing here with
  | nil => simp [locate?] at hlocation
  | cons name rest ih =>
    simp only [locate?] at hlocation
    split at hlocation
    · -- a file, which is where the path has to end
      rename_i file hfile
      split at hlocation
      · cases hlocation
        exact ⟨file, fileAt?_eq_some_iff.mpr hfile⟩
      · cases hlocation
    · split at hlocation
      · exact ih hlocation
      · cases hlocation

theorem fileAt?_of_location? {d : Directory} {path : Path} {location : Location}
    (hlocation : d.location? path = some location) : ∃ file, d.fileAt? location = some file := by
  unfold location? at hlocation
  split at hlocation
  · cases hlocation
  · exact fileAt?_of_locate? hlocation

/-! ## Another file in the place of one -/

/-- What is listed at a location that was set is what was set; elsewhere nothing changes. -/
theorem lookup_set (d : Directory) (location l : Location) (entry : Option File) :
    (d.set location entry).entries.lookup l =
      if l = location then some entry else d.entries.lookup l := by
  unfold set
  rw [List.lookup_append]
  split
  · -- the location itself: what stood there is gone
    rename_i heq
    have hgone : (d.entries.filter (·.1 != location)).lookup l = none := by
      rw [List.lookup_eq_none_iff]
      intro e he
      simpa [heq, bne_comm] using (List.mem_filter.mp he).2
    rw [hgone, Option.none_or, heq, List.lookup_cons_self]
  · -- another location: what stood there is kept by the filter
    rename_i hne
    have hkept : (d.entries.filter (·.1 != location)).lookup l = d.entries.lookup l := by
      induction d.entries with
      | nil => rfl
      | cons e entries ih =>
        by_cases he : e.1 = location
        · rw [List.filter_cons_of_neg (by simp [he]), ih, List.lookup_cons,
            beq_eq_false_iff_ne.mpr (he ▸ hne)]
        · rw [List.filter_cons_of_pos (by simp [he]), List.lookup_cons, List.lookup_cons, ih]
    rw [hkept, List.lookup_cons, beq_eq_false_iff_ne.mpr hne, List.lookup_nil, Option.or_none]

section

variable {d : Directory} {location : Location} {old : File}

/-- A location is a directory for what lies below it, and a file that is replaced lies where it
lay. -/
theorem isDirectory_set_file (hold : d.fileAt? location = some old) (new : File) {l : Location}
    (hne : l ≠ location) : (d.set location (some new)).isDirectory l = d.isDirectory l := by
  unfold isDirectory set
  congr 1
  rw [Bool.eq_iff_iff, List.any_eq_true, List.any_eq_true]
  constructor
  · rintro ⟨e, he, hbelow⟩
    rcases List.mem_append.mp he with hkept | hnew
    · exact ⟨e, (List.mem_filter.mp hkept).1, hbelow⟩
    · -- the new file lies below what the old one lay below
      obtain rfl := List.mem_singleton.mp hnew
      obtain ⟨before, after, heq, -⟩ :=
        List.lookup_eq_some_iff.mp (fileAt?_eq_some_iff.mp hold)
      exact ⟨(location, some old), by simp [heq], hbelow⟩
  · rintro ⟨e, he, hbelow⟩
    by_cases hhere : e.1 = location
    · -- the location does not lie below itself, so it lies properly below the other
      rw [Bool.and_eq_true, hhere, List.isPrefixOf_iff_prefix] at hbelow
      have hlength : location.length ≠ l.length := fun heq =>
        hne (hbelow.1.eq_of_length heq.symm)
      exact ⟨(location, some new), by simp, by simp [hbelow.1, hlength]⟩
    · exact ⟨e, List.mem_append_left _ (List.mem_filter.mpr ⟨he, by simpa using hhere⟩), hbelow⟩

/-- Where a path leads does not change when a file is replaced: at its location there still is a
file, and the directories are those that there were. -/
theorem locate?_set_file (hold : d.fileAt? location = some old) (new : File) (here : Location)
    (path : List Path) :
    (d.set location (some new)).locate? here path = d.locate? here path := by
  induction path generalizing here with
  | nil => rfl
  | cons name rest ih =>
    simp only [locate?, lookup_set]
    -- the next entry is the file that is replaced, or another one
    by_cases hthere : here.next name = location
    · rw [if_pos hthere, hthere, fileAt?_eq_some_iff.mp hold]
    · rw [if_neg hthere, ih, isDirectory_set_file hold new hthere]

theorem location?_set_file (hold : d.fileAt? location = some old) (new : File) (path : Path) :
    (d.set location (some new)).location? path = d.location? path := by
  unfold location?
  rw [locate?_set_file hold]

/-- Once a file is replaced, the new one is under the paths that led to the old one, and under the
other paths is what was there. -/
theorem file?_set_file (hold : d.fileAt? location = some old) (new : File) (path : Path) :
    (d.set location (some new)).file? path =
      if d.location? path = some location then some new else d.file? path := by
  rw [file?_eq, file?_eq, location?_set_file hold]
  cases hpath : d.location? path with
  | none => simp
  | some l =>
    simp only [Option.bind_some, fileAt?, lookup_set, Option.some.injEq]
    split <;> rfl

end

end ScanAudit.Directory
