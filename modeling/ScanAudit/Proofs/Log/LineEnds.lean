import ScanAudit.Proofs.Log.Numbering

/-!
# Line ends

A log may end its lines in a line feed, or in a carriage return and a line feed, each line in its
own way, and the last line may as well have no end or only the carriage return of one. The items
of the log are the same for all of these.

* `Ended` — a text made of lines, each with a line end of its own
* `itemsFrom` — the items of lines without line ends
* `itemsFrom_lines` — the items of a text are those of its lines
* `items_lineEnds` — texts of the same lines have the same items
-/

namespace ScanAudit.Log

open Text

/-- The text consists of these lines, each with a line feed behind it, or with a carriage return and
a line feed. The last line may also have nothing or only a carriage return behind it. -/
inductive Ended : List String → String → Prop
  | nil : Ended [] ""
  | last (line lineEnd : String) (h : lineEnd = "" ∨ lineEnd = "\r") :
      Ended [line] (line ++ lineEnd)
  | cons (line lineEnd : String) {ls : List String} {text : String}
      (h : lineEnd = "\n" ∨ lineEnd = "\r\n") (hrest : Ended ls text) :
      Ended (line :: ls) (line ++ lineEnd ++ text)

/-- The line holds no character of a line end. -/
def IsBare (line : String) : Prop :=
  '\r' ∉ line.toList ∧ '\n' ∉ line.toList

instance (line : String) : Decidable (IsBare line) :=
  inferInstanceAs (Decidable (_ ∧ _))

/-- The items of lines without line ends, the first of them on line `n`. -/
def itemsFrom (n : Nat) (ls : List (List Char)) : List Item :=
  ((ls.zipIdx n).filter fun l => !l.1.all isBlank).map fun l => readLine l.2 (String.ofList l.1)

theorem items_eq_itemsFrom (text : String) : items text = itemsFrom 1 (lines text.toList) := rfl

theorem itemsFrom_cons (n : Nat) (line : List Char) (ls : List (List Char)) :
    itemsFrom n (line :: ls) = itemsFrom n [line] ++ itemsFrom (n + 1) ls := by
  show itemsFrom n ([line] ++ ls) = _
  rw [itemsFrom, List.zipIdx_append, List.filter_append, List.map_append]
  rfl

theorem itemsFrom_singleton (n : Nat) (line : List Char) :
    itemsFrom n [line] =
      if line.all isBlank then [] else [readLine n (String.ofList line)] := by
  simp only [itemsFrom, List.zipIdx_singleton, List.filter_cons, List.filter_nil]
  cases line.all isBlank <;> rfl

/-! ## One line -/

theorem IsBare.getLast?_ne {line : String} (h : IsBare line) :
    line.toList.getLast? ≠ some '\r' :=
  fun hlast => h.1 (List.mem_of_getLast? hlast)

theorem IsBare.dropReturn_eq {line : String} (h : IsBare line) :
    dropReturn line.toList = line.toList := by
  rw [dropReturn, if_neg h.getLast?_ne]

/-- A line feed ends the line, with a carriage return before it or without. -/
theorem IsBare.lines_append {line : String} (h : IsBare line) {lineEnd : String}
    (hend : lineEnd = "\n" ∨ lineEnd = "\r\n") (rest : String) :
    lines (line ++ lineEnd ++ rest).toList = line.toList :: lines rest.toList := by
  rcases hend with rfl | rfl
  · have htext : (line ++ "\n" ++ rest).toList = line.toList ++ '\n' :: rest.toList := by simp
    rw [htext, lines_append_cons h.2, h.dropReturn_eq]
  · have htext : (line ++ "\r\n" ++ rest).toList =
        (line.toList ++ ['\r']) ++ '\n' :: rest.toList := by simp
    -- the carriage return belongs to the end of the line
    have hline : '\n' ∉ line.toList ++ ['\r'] := by simp [h.2]
    rw [htext, lines_append_cons hline, dropReturn_append_return]

/-- A carriage return that no line feed follows stays in the line. It is blank, and the reader of
the line takes it off. -/
theorem IsBare.itemsFrom_return {line : String} (h : IsBare line) (n : Nat) :
    itemsFrom n [line.toList ++ ['\r']] = itemsFrom n [line.toList] := by
  have hblank : (line.toList ++ ['\r']).all isBlank = line.toList.all isBlank := by
    rw [List.all_append]
    exact Bool.and_true _
  have hread : readLine n (String.ofList (line.toList ++ ['\r'])) =
      readLine n (String.ofList line.toList) := by
    simp only [readLine, String.toList_ofList, dropReturn_append_return, h.dropReturn_eq]
  rw [itemsFrom_singleton, itemsFrom_singleton, hblank, hread]

/-- A text without a line feed is one line; an empty one would be left out as blank. -/
theorem itemsFrom_lines_of_not_mem {cs : List Char} (h : '\n' ∉ cs) (n : Nat) :
    itemsFrom n (lines cs) = itemsFrom n [cs] := by
  rw [itemsFrom, filter_lines_of_not_mem h]
  rfl

/-! ## All lines -/

/-- By induction on the lines: a line feed ends each of them but a last one without it. -/
theorem itemsFrom_lines {ls : List String} {text : String} (h : Ended ls text)
    (hls : ∀ line ∈ ls, IsBare line) (n : Nat) :
    itemsFrom n (lines text.toList) = itemsFrom n (ls.map String.toList) := by
  induction h generalizing n with
  | nil => rfl
  | last line lineEnd hend =>
    have hline : IsBare line := hls line (.head _)
    -- no line feed is left to end the line
    rcases hend with rfl | rfl
    · rw [String.append_empty, itemsFrom_lines_of_not_mem hline.2]
      rfl
    · have htext : (line ++ "\r").toList = line.toList ++ ['\r'] := by simp
      have hmem : '\n' ∉ line.toList ++ ['\r'] := by simp [hline.2]
      rw [htext, itemsFrom_lines_of_not_mem hmem, hline.itemsFrom_return]
      rfl
  | cons line lineEnd hend hrest ih =>
    -- the first line has an end, and the others are the case of the induction
    obtain ⟨hline, hlater⟩ := List.forall_mem_cons.mp hls
    rw [hline.lines_append hend, itemsFrom_cons, ih hlater, List.map_cons, ← itemsFrom_cons]

/-- The items of a log do not depend on how its lines end: they are the lines that are not blank,
read in order with their places among all lines. -/
theorem items_lineEnds {ls : List String} {a b : String} (hls : ∀ line ∈ ls, IsBare line)
    (ha : Ended ls a) (hb : Ended ls b) :
    items a = items b ∧
      items a = ((ls.zipIdx 1).filter fun l => !l.1.toList.all isBlank).map
        fun l => readLine l.2 l.1 := by
  constructor
  · rw [items_eq_itemsFrom, itemsFrom_lines ha hls, ← itemsFrom_lines hb hls, items_eq_itemsFrom]
  · rw [items_eq_itemsFrom, itemsFrom_lines ha hls, itemsFrom, List.zipIdx_map, List.filter_map,
      List.map_map]
    simp [Function.comp_def]

/-- Two of the lines are blank, and one is no entry. -/
def sampleLines : List String :=
  ["Query: q was executed 2 times", "", " ", "Query: q", "Query: r was executed +07 times"]

/-- The two logs have other line ends at each of their lines. -/
theorem items_lineEnds_sample :
    items ("Query: q was executed 2 times\r\n\n \r\nQuery: q\n" ++
        "Query: r was executed +07 times\r") =
      items ("Query: q was executed 2 times\n\r\n \nQuery: q\r\n" ++
        "Query: r was executed +07 times\r\n") ∧
    items ("Query: q was executed 2 times\r\n\n \r\nQuery: q\n" ++
        "Query: r was executed +07 times\r") =
      [.ok ⟨1, "q", 2⟩, .error ⟨4, "Query: q", .missingClosing⟩, .ok ⟨5, "r", 7⟩] := by
  have hls : ∀ line ∈ sampleLines, IsBare line := by decide
  have ha : Ended sampleLines ("Query: q was executed 2 times\r\n\n \r\nQuery: q\n" ++
      "Query: r was executed +07 times\r") :=
    .cons _ "\r\n" (.inr rfl) (.cons _ "\n" (.inl rfl) (.cons _ "\r\n" (.inr rfl)
      (.cons _ "\n" (.inl rfl) (.last _ "\r" (.inr rfl)))))
  have hb : Ended sampleLines ("Query: q was executed 2 times\n\r\n \nQuery: q\r\n" ++
      "Query: r was executed +07 times\r\n") :=
    .cons _ "\n" (.inl rfl) (.cons _ "\r\n" (.inr rfl) (.cons _ "\n" (.inl rfl)
      (.cons _ "\r\n" (.inr rfl) (.cons _ "\r\n" (.inr rfl) .nil))))
  obtain ⟨hsame, hitems⟩ := items_lineEnds hls ha hb
  exact ⟨hsame, hitems.trans rfl⟩

end ScanAudit.Log
