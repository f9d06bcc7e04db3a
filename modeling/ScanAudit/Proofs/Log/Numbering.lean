import ScanAudit.Log.Items
import ScanAudit.Proofs.Text.Lines

/-!
# Line numbers

The number of a line is handed through by the reader and has no other part in what is read. So a
log that is cut between two lines gives the items of its two parts, and those of the second part
only have their numbers increased by the lines of the first.

* `Entry.moved`, `BadLine.moved`, `Item.moved` — an item so many lines further down
* `readLine_add` — a line that is read so many lines further down
* `numberedLines_append`, `items_append` — the lines and the items of a log in two parts
* `Item.lineNumber`, `pairwise_lineNumber` — the numbers increase along the log
* `exists_place` — a number is the place of a line between the line feeds of the text
* `take_items_append` — the items up to a line are those of the text up to its end
* `items_numbered` — these facts together
-/

namespace ScanAudit.Log

open Text

def Entry.moved (n : Nat) (entry : Entry) : Entry :=
  { entry with lineNumber := entry.lineNumber + n }

def BadLine.moved (n : Nat) (bad : BadLine) : BadLine :=
  { bad with lineNumber := bad.lineNumber + n }

def Item.moved (n : Nat) : Item → Item
  | .error bad => .error (bad.moved n)
  | .ok entry => .ok (entry.moved n)

/-- A numbered line so many lines further down. -/
def lower (n : Nat) (line : List Char × Nat) : List Char × Nat :=
  (line.1, line.2 + n)

theorem readLine_add (m n : Nat) (line : String) :
    readLine (m + n) line = Item.moved n (readLine m line) := by
  unfold readLine
  dsimp only
  cases readFields (dropReturn line.toList) with
  | error reason => rfl
  | ok fields => rfl

/-- Lines that are numbered from further down are lines with more added to their numbers. -/
theorem zipIdx_add (ls : List (List Char)) (m n : Nat) :
    ls.zipIdx (m + n) = (ls.zipIdx m).map (lower n) := by
  rw [Nat.add_comm, ← List.map_snd_add_zipIdx_eq_zipIdx]
  rfl

/-- An empty text has no line, but an empty line would be left out too. -/
theorem filter_lines_of_not_mem {cs : List Char} (h : '\n' ∉ cs) (n : Nat) :
    ((lines cs).zipIdx n).filter (!·.1.all isBlank) = [(cs, n)].filter (!·.1.all isBlank) := by
  rw [lines_of_not_mem h]
  cases cs <;> rfl

/-- Blank lines are numbered too, so all lines of the first part count. -/
theorem numberedLines_append {a : String} (h : EndsLine a.toList) (b : String) :
    numberedLines (a ++ b) =
      numberedLines a ++ (numberedLines b).map (lower (a.toList.count '\n')) := by
  -- the first part ends its last line, so that the lines of the second begin behind it
  have hplaces : (lines (a ++ b).toList).zipIdx 1 = (lines a.toList).zipIdx 1 ++
      ((lines b.toList).zipIdx 1).map (lower (a.toList.count '\n')) := by
    rw [String.toList_append, h.lines_append, List.zipIdx_append, h.length_lines, zipIdx_add]
  rw [numberedLines, hplaces, List.filter_append, List.filter_map]
  rfl

/-- The items of a log in two parts. The second part is read as it would be by itself, with its
numbers moved by the line feeds of the first. -/
theorem items_append {a : String} (h : EndsLine a.toList) (b : String) :
    items (a ++ b) = items a ++ (items b).map (Item.moved (a.toList.count '\n')) := by
  rw [items, numberedLines_append h, List.map_append, List.map_map, items, items, List.map_map]
  congr 1
  exact List.map_congr_left fun line _ => readLine_add line.2 _ (String.ofList line.1)

/-! ## Places in the log -/

def Item.lineNumber : Item → Nat
  | .error bad => bad.lineNumber
  | .ok entry => entry.lineNumber

/-- An item has the number that its line was read with, refused or not. -/
theorem lineNumber_readLine (n : Nat) (line : String) : Item.lineNumber (readLine n line) = n := by
  unfold readLine
  dsimp only
  cases readFields (dropReturn line.toList) with
  | error reason => rfl
  | ok fields => rfl

theorem Item.lineNumber_moved (n : Nat) (item : Item) :
    (item.moved n).lineNumber = item.lineNumber + n := by
  cases item with
  | error bad => rfl
  | ok entry => rfl

/-- The numbers increase along the log, since they do along its lines and blank lines are only left
out. -/
theorem pairwise_lineNumber (text : String) :
    (items text).Pairwise fun x y => x.lineNumber < y.lineNumber := by
  have hplaces : ((lines text.toList).zipIdx 1).Pairwise fun l m => l.2 < m.2 := by
    apply List.pairwise_map.mp
    rw [List.zipIdx_map_snd]
    exact List.pairwise_lt_range'
  -- an item has the number of its line
  rw [items, List.pairwise_map]
  simp only [lineNumber_readLine]
  exact hplaces.filter _

/-- Every item is read from a line of the log, with its place as the number. -/
theorem exists_line_of_mem_items {text : String} {item : Item} (h : item ∈ items text) :
    ∃ i line, (lines text.toList)[i]? = some line ∧
      item = readLine (i + 1) (String.ofList line) := by
  obtain ⟨⟨line, n⟩, hline, rfl⟩ := List.mem_map.mp h
  obtain ⟨hpos, hget⟩ := List.mk_mem_zipIdx_iff_le_and_getElem?_sub.mp (List.mem_filter.mp hline).1
  exact ⟨n - 1, line, hget, by rw [Nat.sub_add_cancel hpos]⟩

/-- The numbers are those of lines that the log has. -/
theorem lineNumber_bounds {text : String} {item : Item} (h : item ∈ items text) :
    0 < item.lineNumber ∧ item.lineNumber ≤ (lines text.toList).length := by
  obtain ⟨i, line, hline, rfl⟩ := exists_line_of_mem_items h
  obtain ⟨hlt, -⟩ := List.getElem?_eq_some_iff.mp hline
  rw [lineNumber_readLine]
  omega

/-- The number of an item counts the line feeds before its line. -/
theorem exists_place_of_mem_items {text : String} {item : Item} (h : item ∈ items text) :
    ∃ before rest line, text.toList = before ++ rest ∧ EndsLine before ∧
      (lines rest).head? = some line ∧
        item = readLine (before.count '\n' + 1) (String.ofList line) := by
  obtain ⟨i, line, hline, rfl⟩ := exists_line_of_mem_items h
  obtain ⟨before, rest, htext, hbefore, rfl, hhead⟩ := exists_place hline
  exact ⟨before, rest, line, htext, hbefore, hhead, rfl⟩

/-- The last line of the first part gives the item at `i`, so the items up to it are all that the
first part has. -/
theorem take_items_append {a b : String} (h : EndsLine a.toList) {i : Nat} {item : Item}
    (hitem : (items (a ++ b))[i]? = some item) (hlast : item.lineNumber = a.toList.count '\n')
    (c : String) : (items (a ++ c)).take (i + 1) = items a := by
  -- the items of the second part are behind this line
  have hlt : i < (items a).length := by
    apply Nat.not_le.mp
    intro hge
    -- an item of the second part has a number above all line feeds of the first
    rw [items_append h, List.getElem?_append_right hge] at hitem
    obtain ⟨behind, hmem, rfl⟩ := List.mem_map.mp (List.mem_of_getElem? hitem)
    have hpos := (lineNumber_bounds hmem).1
    rw [Item.lineNumber_moved] at hlast
    omega
  -- and the first part has none behind this line, as the numbers increase
  have hle : (items a).length ≤ i + 1 := by
    apply Nat.not_lt.mp
    intro hmore
    -- an item behind this one would have a line behind the last of the first part
    rw [items_append h, List.getElem?_append_left hlt, List.getElem?_eq_getElem hlt] at hitem
    have hincrease := List.pairwise_iff_getElem.mp (pairwise_lineNumber a) i (i + 1) hlt hmore
      (Nat.lt_succ_self i)
    have hbound := (lineNumber_bounds (List.getElem_mem hmore)).2
    rw [h.length_lines] at hbound
    rw [Option.some.inj hitem] at hincrease
    omega
  have hlength : (items a).length = i + 1 := Nat.le_antisymm hle hlt
  rw [items_append h, List.take_append_of_le_length (Nat.le_of_eq hlength.symm), ← hlength,
    List.take_length]

/-- A log in two parts, the first of which ends its last line, has the items of the first and behind
them those of the second, with the line feeds of the first added to their numbers. So the items up
to the one of a line depend on nothing behind the end of this line. The numbers increase along the
log, and each counts the line feeds before its line, of blank lines too. -/
theorem items_numbered {a : String} (h : EndsLine a.toList) (b : String) :
    items (a ++ b) = items a ++ (items b).map (Item.moved (a.toList.count '\n')) ∧
      (∀ (i : Nat) (item : Item), (items (a ++ b))[i]? = some item →
        item.lineNumber = a.toList.count '\n' →
          ∀ c : String, (items (a ++ c)).take (i + 1) = items a) ∧
      ((items (a ++ b)).Pairwise fun x y => x.lineNumber < y.lineNumber) ∧
      ∀ item ∈ items (a ++ b), ∃ before rest line,
        (a ++ b).toList = before ++ rest ∧ EndsLine before ∧ (lines rest).head? = some line ∧
          item = readLine (before.count '\n' + 1) (String.ofList line) :=
  ⟨items_append h b, fun _ _ hitem hlast => take_items_append h hitem hlast,
    pairwise_lineNumber (a ++ b), fun _ => exists_place_of_mem_items⟩

/-- The second part begins on line 4, and its first line is blank. -/
theorem items_numbered_sample :
    items "Query: q was executed 2 times\n \r\nx\n\nQuery: r was executed 7 times" =
        [.ok ⟨1, "q", 2⟩, .error ⟨3, "x", .missingOpening⟩, .ok ⟨5, "r", 7⟩] ∧
      ∀ c : String, (items ("Query: q was executed 2 times\n \r\nx\n" ++ c)).take 2 =
        [.ok ⟨1, "q", 2⟩, .error ⟨3, "x", .missingOpening⟩] := by
  -- the first part has three line feeds and ends with one
  have hend : EndsLine "Query: q was executed 2 times\n \r\nx\n".toList :=
    .inr ⟨"Query: q was executed 2 times\n \r\nx".toList, rfl⟩
  obtain ⟨happend, htake, -⟩ := items_numbered hend "\nQuery: r was executed 7 times"
  exact ⟨happend.trans rfl, fun c => (htake 1 _ rfl rfl c).trans rfl⟩

end ScanAudit.Log
