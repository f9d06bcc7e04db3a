import ScanAudit.Text.Lines

/-!
# Lines of a text put together from lines

Every text is some lines, each with a line feed behind it, and a rest without a line feed. What the
reader of lines makes of a text can be said of these parts.

* `append_cons_inj` — a text cut at the first occurrence of a character
* `lines_append_cons`, `lines_of_not_mem` — the first line of a text, and a last one without an end
* `lines_flatMap_append`, `lines_flatMap` — the lines of a text that begins with ended lines
* `splitOn_flatMap_append` — the pieces of a text between line feeds
* `eq_of_flatMap_eq` — a text determines the ended lines that it is put together from
* `exists_eq_flatMap_append` — every text is put together from ended lines and a rest
* `EndsLine` — a text whose last line has its end
* `exists_place` — a line by the line feeds in front of it
* `dropReturn_eq_iff` — which text is left of a line without its carriage return
* `newline_not_mem_of_mem_lines` — no line holds a line feed
-/

namespace ScanAudit.Text

/-- A text is cut in one way at the first occurrence of a character. -/
theorem append_cons_inj {c : Char} {xs ys rest rest' : List Char} (hxs : c ∉ xs) (hys : c ∉ ys)
    (h : xs ++ c :: rest = ys ++ c :: rest') : xs = ys ∧ rest = rest' := by
  have hsplit : xs :: rest.splitOn c = ys :: rest'.splitOn c := by
    rw [← List.splitOn_append_cons_self_of_not_mem hxs, h,
      List.splitOn_append_cons_self_of_not_mem hys]
  obtain rfl : xs = ys := (List.cons.inj hsplit).1
  exact ⟨rfl, (List.cons.inj (List.append_cancel_left h)).2⟩

/-- The first line feed ends the first line, and what is behind it has the other lines. -/
theorem lines_append_cons {line : List Char} (h : '\n' ∉ line) (rest : List Char) :
    lines (line ++ '\n' :: rest) = dropReturn line :: lines rest := by
  have hsplit : (line ++ '\n' :: rest).splitOn '\n' = line :: rest.splitOn '\n' :=
    List.splitOn_append_cons_self_of_not_mem h rest
  -- the last piece is one of those behind the line feed
  obtain ⟨piece, pieces, hrest⟩ :=
    List.exists_cons_of_ne_nil (List.splitOn_ne_nil '\n' rest)
  simp only [lines, hsplit, hrest, List.dropLast_cons_cons, List.map_cons, List.cons_append,
    List.getLast?_cons_cons]

theorem lines_of_not_mem {cs : List Char} (h : '\n' ∉ cs) :
    lines cs = [cs].filter (!·.isEmpty) := by
  have hsplit : cs.splitOn '\n' = [cs] := List.splitOn_eq_singleton h
  simp [lines, hsplit]

/-- Lines that hold no line feed are read back from the front of a text, each without a carriage
return at its end. -/
theorem lines_flatMap_append {ls : List (List Char)} (h : ∀ line ∈ ls, '\n' ∉ line)
    (rest : List Char) :
    lines (ls.flatMap (· ++ ['\n']) ++ rest) = ls.map dropReturn ++ lines rest := by
  induction ls with
  | nil => rfl
  | cons line ls ih =>
    have hlater := ih fun l hl => h l (.tail _ hl)
    rw [List.flatMap_cons, List.append_assoc, List.append_assoc, List.singleton_append,
      lines_append_cons (h line (.head _)), hlater, List.map_cons, List.cons_append]

theorem lines_flatMap {ls : List (List Char)} (h : ∀ line ∈ ls, '\n' ∉ line) :
    lines (ls.flatMap (· ++ ['\n'])) = ls.map dropReturn := by
  have hall := lines_flatMap_append h []
  rwa [List.append_nil, lines_nil, List.append_nil] at hall

/-- Each first line reaches to the first line feed of the text, so the two are one. -/
theorem eq_of_flatMap_eq {ls ls' : List (List Char)} (h : ∀ line ∈ ls, '\n' ∉ line)
    (h' : ∀ line ∈ ls', '\n' ∉ line)
    (heq : ls.flatMap (· ++ ['\n']) = ls'.flatMap (· ++ ['\n'])) : ls = ls' := by
  induction ls generalizing ls' with
  | nil =>
    cases ls' with
    | nil => rfl
    | cons line' ls' => simp at heq
  | cons line ls ih =>
    cases ls' with
    | nil => simp at heq
    | cons line' ls' =>
      simp only [List.flatMap_cons, List.append_assoc, List.singleton_append] at heq
      obtain ⟨rfl, hrest⟩ := append_cons_inj (h line (.head _)) (h' line' (.head _)) heq
      have hlater := ih (fun l hl => h l (.tail _ hl)) (fun l hl => h' l (.tail _ hl)) hrest
      rw [hlater]

/-- The pieces between line feeds are the lines and the rest behind the last of them. -/
theorem splitOn_flatMap_append {ls : List (List Char)} {last : List Char}
    (h : ∀ line ∈ ls, '\n' ∉ line) (hlast : '\n' ∉ last) :
    (ls.flatMap (· ++ ['\n']) ++ last).splitOn '\n' = ls ++ [last] := by
  induction ls with
  | nil => exact List.splitOn_eq_singleton hlast
  | cons line ls ih =>
    have hlater := ih fun l hl => h l (.tail _ hl)
    rw [List.flatMap_cons, List.append_assoc, List.append_assoc, List.singleton_append,
      List.splitOn_append_cons_self_of_not_mem (h line (.head _)), hlater, List.cons_append]

/-! ## Every text -/

/-- By induction on the text: a line feed ends a new line, and any other character goes to the front
of the first one. -/
theorem exists_eq_flatMap_append (cs : List Char) :
    ∃ (ls : List (List Char)) (last : List Char), cs = ls.flatMap (· ++ ['\n']) ++ last ∧
      (∀ line ∈ ls, '\n' ∉ line) ∧ '\n' ∉ last := by
  induction cs with
  | nil => exact ⟨[], [], rfl, nofun, nofun⟩
  | cons c cs ih =>
    obtain ⟨ls, last, rfl, hls, hlast⟩ := ih
    by_cases hc : c = '\n'
    · -- the new line is empty
      subst hc
      exact ⟨[] :: ls, last, rfl, List.forall_mem_cons.mpr ⟨nofun, hls⟩, hlast⟩
    · -- the character goes to the front of the first line
      have hfront {line : List Char} (hline : '\n' ∉ line) : '\n' ∉ c :: line := by
        rw [List.mem_cons, not_or]
        exact ⟨Ne.symm hc, hline⟩
      cases ls with
      | nil => exact ⟨[], c :: last, rfl, nofun, hfront hlast⟩
      | cons line ls =>
        obtain ⟨hline, hrest⟩ := List.forall_mem_cons.mp hls
        exact ⟨(c :: line) :: ls, last, rfl, List.forall_mem_cons.mpr ⟨hfront hline, hrest⟩, hlast⟩

/-- The last line of the text has its end. -/
def EndsLine (cs : List Char) : Prop :=
  cs = [] ∨ ∃ front, cs = front ++ ['\n']

/-- A text whose last line has its end is put together from ended lines alone. -/
theorem EndsLine.exists_eq_flatMap {cs : List Char} (h : EndsLine cs) :
    ∃ ls : List (List Char), cs = ls.flatMap (· ++ ['\n']) ∧ ∀ line ∈ ls, '\n' ∉ line := by
  rcases h with rfl | ⟨front, rfl⟩
  · exact ⟨[], rfl, nofun⟩
  · -- what follows the last line feed of the front is one more line
    obtain ⟨ls, last, rfl, hls, hlast⟩ := exists_eq_flatMap_append front
    refine ⟨ls ++ [last], by simp, fun line hline => ?_⟩
    rcases List.mem_append.mp hline with hline | hline
    · exact hls line hline
    · rwa [List.mem_singleton.mp hline]

theorem count_flatMap {ls : List (List Char)} (h : ∀ line ∈ ls, '\n' ∉ line) :
    (ls.flatMap (· ++ ['\n'])).count '\n' = ls.length := by
  induction ls with
  | nil => rfl
  | cons line ls ih =>
    have hline : line.count '\n' = 0 := List.count_eq_zero.mpr (h line (.head _))
    have hlater := ih fun l hl => h l (.tail _ hl)
    rw [List.flatMap_cons, List.count_append, List.count_append, hline, hlater, List.length_cons]
    simp [Nat.add_comm]

/-- The lines of a text and of one behind it are those of the whole, if the cut is not inside a
line. -/
theorem EndsLine.lines_append {cs : List Char} (h : EndsLine cs) (rest : List Char) :
    lines (cs ++ rest) = lines cs ++ lines rest := by
  obtain ⟨ls, rfl, hls⟩ := h.exists_eq_flatMap
  rw [lines_flatMap_append hls, lines_flatMap hls]

/-- So the line feeds count the lines of a text whose last line has its end. -/
theorem EndsLine.length_lines {cs : List Char} (h : EndsLine cs) :
    (lines cs).length = cs.count '\n' := by
  obtain ⟨ls, rfl, hls⟩ := h.exists_eq_flatMap
  rw [lines_flatMap hls, List.length_map, count_flatMap hls]

/-- What stands before a line feed does not matter for how a text ends. -/
theorem EndsLine.append_cons {cs : List Char} (h : EndsLine cs) (front : List Char) :
    EndsLine (front ++ '\n' :: cs) := by
  right
  rcases h with rfl | ⟨rest, rfl⟩
  · exact ⟨front, rfl⟩
  · exact ⟨front ++ '\n' :: rest, by simp⟩

/-- The line with `n` lines before it is the first one behind `n` line feeds. By induction on these,
each of which ends one line more. -/
theorem exists_place {cs line : List Char} {n : Nat} (h : (lines cs)[n]? = some line) :
    ∃ before rest, cs = before ++ rest ∧ EndsLine before ∧ before.count '\n' = n ∧
      (lines rest).head? = some line := by
  induction n generalizing cs with
  | zero => exact ⟨[], cs, rfl, .inl rfl, rfl, by rwa [List.head?_eq_getElem?]⟩
  | succ n ih =>
    -- a text without a line feed has one line at most
    have hmem : '\n' ∈ cs := by
      apply Decidable.of_not_not
      intro hnone
      rw [lines_of_not_mem hnone] at h
      obtain ⟨hlt, -⟩ := List.getElem?_eq_some_iff.mp h
      have hle : ([cs].filter (!·.isEmpty)).length ≤ 1 := List.length_filter_le _ _
      omega
    -- the first line feed ends the first line, and the others are counted behind it
    obtain ⟨front, tail, rfl, hfront⟩ := List.eq_append_cons_of_mem hmem
    rw [lines_append_cons hfront, List.getElem?_cons_succ] at h
    obtain ⟨before, rest, rfl, hbefore, rfl, hhead⟩ := ih h
    have hcount : front.count '\n' = 0 := List.count_eq_zero.mpr hfront
    refine ⟨front ++ '\n' :: before, rest, by simp, hbefore.append_cons front, ?_, hhead⟩
    rw [List.count_append, hcount, List.count_cons_self, Nat.zero_add]

theorem dropReturn_subset (cs : List Char) : dropReturn cs ⊆ cs := by
  unfold dropReturn
  split
  · exact List.dropLast_subset cs
  · exact List.Subset.refl cs

/-- A text is a line without its line end if and only if at most one carriage return stands behind
it in the line, and none at its end where there is none behind it. -/
theorem dropReturn_eq_iff {cs text : List Char} :
    dropReturn cs = text ↔
      ∃ lineEnd, cs = text ++ lineEnd ∧
        (lineEnd = ['\r'] ∨ lineEnd = [] ∧ text.getLast? ≠ some '\r') := by
  unfold dropReturn
  split
  · next h =>
    obtain ⟨front, rfl⟩ := List.getLast?_eq_some_iff.mp h
    rw [List.dropLast_concat]
    constructor
    · rintro rfl
      exact ⟨['\r'], rfl, .inl rfl⟩
    · -- with nothing behind it, the text would end in the carriage return
      rintro ⟨lineEnd, hline, rfl | ⟨rfl, hlast⟩⟩
      · exact List.append_cancel_right hline
      · rw [List.append_nil] at hline
        exact absurd (hline ▸ h) hlast
  · next h =>
    constructor
    · rintro rfl
      exact ⟨[], (List.append_nil cs).symm, .inr ⟨rfl, h⟩⟩
    · rintro ⟨lineEnd, rfl, rfl | ⟨rfl, -⟩⟩
      · exact absurd List.getLast?_concat h
      · exact List.append_nil text

/-- A line of a text is one of its ended lines or the rest, and none of them has a line feed. -/
theorem newline_not_mem_of_mem_lines {cs line : List Char} (h : line ∈ lines cs) :
    '\n' ∉ line := by
  obtain ⟨ls, last, rfl, hls, hlast⟩ := exists_eq_flatMap_append cs
  rw [lines_flatMap_append hls, lines_of_not_mem hlast, List.mem_append] at h
  rcases h with h | h
  · -- an ended line may have lost a carriage return
    obtain ⟨piece, hpiece, rfl⟩ := List.mem_map.mp h
    exact fun hmem => hls piece hpiece (dropReturn_subset piece hmem)
  · obtain rfl := List.mem_singleton.mp (List.mem_filter.mp h).1
    exact hlast

end ScanAudit.Text
