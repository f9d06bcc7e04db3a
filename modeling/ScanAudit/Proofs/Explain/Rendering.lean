import ScanAudit.Explain.Row
import ScanAudit.Proofs.Text.Lines
import ScanAudit.Proofs.Text.Numeral
import ScanAudit.Proofs.Text.Quoted

/-!
# The text of plan rows

The text of a row is three numbers, each with a comma behind it, and a literal. Neither a number nor
what is escaped holds the character that ends it, so rows can be told from their text, and the text
keeps to one line.

* `render_append_inj` — a row at the front of a text
* `renderRows_inj` — lists of rows with the same text are equal
* `newline_not_mem_renderRows` — the text of rows is on one line
* `details_readBack` — descriptions are quoted without a loss, and so rows are rendered without one
-/

namespace ScanAudit.Explain

open Text

/-- A number is digits and maybe a sign, so the first comma ends it. -/
theorem comma_not_mem_ofInt (n : Int) : ',' ∉ Decimal.ofInt n := by
  intro h
  rcases Decimal.isDigit_or_minus_of_mem_ofInt h with h | h
  · exact absurd h (by decide)
  · exact absurd h (by decide)

/-- A number at the front of a text, with what stands behind its comma. -/
theorem renderInt_append_inj {m n : Int64} {rest rest' : List Char}
    (h : (renderInt m).toList ++ ',' :: rest = (renderInt n).toList ++ ',' :: rest') :
    m = n ∧ rest = rest' := by
  rw [renderInt, renderInt, String.toList_ofList, String.toList_ofList] at h
  obtain ⟨hnumber, hrest⟩ :=
    append_cons_inj (comma_not_mem_ofInt m.toInt) (comma_not_mem_ofInt n.toInt) h
  exact ⟨Int64.toInt_inj.mp (Decimal.ofInt_inj hnumber), hrest⟩

theorem toList_render (row : Row) :
    row.render.toList = '(' :: ((renderInt row.id).toList ++ ',' :: ' ' ::
      ((renderInt row.parent).toList ++ ',' :: ' ' :: ((renderInt row.notUsed).toList ++
        ',' :: ' ' :: (Quoted.encode row.detail.toList ++ [')'])))) := by
  simp [Row.render]

/-- A row at the front of a text: its numbers end at their commas, and its literal at its quote, so
that nothing of it can be taken for what stands behind. -/
theorem render_append_inj {row row' : Row} {rest rest' : List Char}
    (h : row.render.toList ++ rest = row'.render.toList ++ rest') : row = row' ∧ rest = rest' := by
  simp only [toList_render, List.cons_append, List.append_assoc, List.nil_append] at h
  -- one number after the other, then the literal
  obtain ⟨hid, hrest⟩ := renderInt_append_inj (List.cons.inj h).2
  obtain ⟨hparent, hrest⟩ := renderInt_append_inj (List.cons.inj hrest).2
  obtain ⟨hnotUsed, hrest⟩ := renderInt_append_inj (List.cons.inj hrest).2
  obtain ⟨hdetail, hrest⟩ := Quoted.encode_append_inj (List.cons.inj hrest).2
  constructor
  · -- the four fields are the same
    cases row
    cases row'
    simp_all [String.toList_inj]
  · exact (List.cons.inj hrest).2

/-! ## Lists of rows -/

/-- What follows a row in the text of a list: more rows, each behind a comma, or the end. -/
def following : List Row → List Char
  | [] => [']']
  | row :: rows => ',' :: ' ' :: (row.render.toList ++ following rows)

theorem toList_renderRows_nil : (renderRows []).toList = ['[', ']'] := rfl

/-- The first row, and then those that follow. The induction is on the others, with the first one
open, as each becomes the first of the rest. -/
theorem toList_renderRows_cons (row : Row) (rows : List Row) :
    (renderRows (row :: rows)).toList = '[' :: (row.render.toList ++ following rows) := by
  -- the rows are joined by the text that stands before each but the first
  have hjoined : (", ".intercalate ((row :: rows).map Row.render)).toList ++ [']'] =
      row.render.toList ++ following rows := by
    induction rows generalizing row with
    | nil => simp [following]
    | cons next rows ih =>
      have hnext := ih next
      simp only [String.toList_intercalate, List.map_cons] at hnext ⊢
      rw [List.intercalate_cons_cons, List.append_assoc, hnext]
      simp [following]
  rw [renderRows, String.toList_append, String.toList_append, List.append_assoc]
  exact congrArg ('[' :: ·) hjoined

/-- Rows that follow with the same text are the same, taken off one by one. -/
theorem following_inj {rows rows' : List Row} (h : following rows = following rows') :
    rows = rows' := by
  induction rows generalizing rows' with
  | nil =>
    cases rows' with
    | nil => rfl
    | cons row' rows' => cases h
  | cons row rows ih =>
    cases rows' with
    | nil => cases h
    | cons row' rows' =>
      obtain ⟨rfl, hrest⟩ := render_append_inj (List.cons.inj (List.cons.inj h).2).2
      rw [ih hrest]

/-- The brackets tell an empty list from one with rows, and these are told from their text. -/
theorem renderRows_inj {rows rows' : List Row} (h : renderRows rows = renderRows rows') :
    rows = rows' := by
  have htext := String.toList_inj.mpr h
  cases rows with
  | nil =>
    cases rows' with
    | nil => rfl
    | cons row' rows' =>
      -- a row begins with a parenthesis, and no list ends with one
      rw [toList_renderRows_nil, toList_renderRows_cons, toList_render] at htext
      cases htext
  | cons row rows =>
    cases rows' with
    | nil =>
      rw [toList_renderRows_nil, toList_renderRows_cons, toList_render] at htext
      cases htext
    | cons row' rows' =>
      rw [toList_renderRows_cons, toList_renderRows_cons] at htext
      obtain ⟨rfl, hrest⟩ := render_append_inj (List.cons.inj htext).2
      rw [following_inj hrest]

/-! ## One line -/

/-- A digit is neither a control character nor a blank. -/
theorem isPlain_of_isDigit {c : Char} (h : c.isDigit = true) : Quoted.IsPlain c := by
  have hcode : 48 ≤ c.toNat ∧ c.toNat ≤ 57 := Char.isDigit_iff_toNat.mp h
  have hcontrol : isControl c = false := by
    simp only [isControl, Bool.or_eq_false_iff, Bool.and_eq_false_iff, decide_eq_false_iff_not]
    omega
  refine ⟨hcontrol, fun hblank => ?_⟩
  rw [not_isBlank_of_isDigit h] at hblank
  cases hblank

theorem isPlain_renderInt (n : Int64) : ∀ c ∈ (renderInt n).toList, Quoted.IsPlain c := by
  intro c hc
  rw [renderInt, String.toList_ofList] at hc
  rcases Decimal.isDigit_or_minus_of_mem_ofInt hc with hdigit | rfl
  · exact isPlain_of_isDigit hdigit
  · decide

/-- All characters of a row are plain: in the literal those that are not are escaped. -/
theorem isPlain_render (row : Row) : ∀ c ∈ row.render.toList, Quoted.IsPlain c := by
  have hliteral : ∀ c ∈ Quoted.encode row.detail.toList, Quoted.IsPlain c :=
    fun _ => Quoted.isPlain_of_mem_encode
  have hopening : Quoted.IsPlain '(' := by decide
  have hcomma : Quoted.IsPlain ',' := by decide
  have hspace : Quoted.IsPlain ' ' := by decide
  have hclosing : Quoted.IsPlain ')' := by decide
  rw [toList_render]
  simp only [List.forall_mem_cons, List.forall_mem_append]
  exact ⟨hopening, isPlain_renderInt row.id, hcomma, hspace, isPlain_renderInt row.parent, hcomma,
    hspace, isPlain_renderInt row.notUsed, hcomma, hspace, hliteral, hclosing,
    nofun⟩

/-- By induction over the rows that follow. -/
theorem isPlain_following (rows : List Row) : ∀ c ∈ following rows, Quoted.IsPlain c := by
  induction rows with
  | nil => exact List.forall_mem_cons.mpr ⟨by decide, nofun⟩
  | cons row rows ih =>
    simp only [following, List.forall_mem_cons, List.forall_mem_append]
    exact ⟨by decide, by decide, isPlain_render row, ih⟩

theorem isPlain_renderRows (rows : List Row) :
    ∀ c ∈ (renderRows rows).toList, Quoted.IsPlain c := by
  cases rows with
  | nil =>
    rw [toList_renderRows_nil]
    exact List.forall_mem_cons.mpr ⟨by decide, List.forall_mem_cons.mpr ⟨by decide, nofun⟩⟩
  | cons row rows =>
    rw [toList_renderRows_cons]
    simp only [List.forall_mem_cons, List.forall_mem_append]
    exact ⟨by decide, isPlain_render row, isPlain_following rows⟩

/-- A line feed is not plain, so that a list of rows is on one line. -/
theorem newline_not_mem_renderRows (rows : List Row) : '\n' ∉ (renderRows rows).toList := by
  intro h
  have hplain : Quoted.IsPlain '\n' := isPlain_renderRows rows _ h
  exact absurd hplain (by decide)

/-! ## Rows told apart by their text -/

/-- With nothing behind them, rows are told apart. -/
theorem render_injective : Function.Injective Row.render := by
  intro row row' h
  have htext : row.render.toList ++ [] = row'.render.toList ++ [] := by rw [h]
  exact (render_append_inj htext).1

/-- The literal of a description has one quote at both ends, the double one exactly for a text with
a single quote and no double quote. Between them no quote ends the literal early, all characters are
on one line, and the text can be read back from them. So different rows have different texts, and
so have different lists of rows. -/
theorem details_readBack :
    (∀ detail : String, ∃ quote inside,
      Quoted.IsLiteral detail.toList quote inside (Quoted.encode detail.toList)) ∧
      Function.Injective Row.render ∧ Function.Injective renderRows := by
  refine ⟨fun detail => ?_, render_injective, fun rows rows' => renderRows_inj⟩
  exact ⟨_, _, Quoted.isLiteral_encode detail.toList⟩

end ScanAudit.Explain
