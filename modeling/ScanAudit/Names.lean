/-!
# Sorted lists of names

Sets of names are kept as lists that strictly increase by code point, so that two sets with the
same members are the same list.
-/

namespace ScanAudit.Names

/-- A name put into a strictly increasing list, which it leaves as it is if it is there. -/
def insert (name : String) : List String → List String
  | [] => [name]
  | n :: names =>
    if name < n then name :: n :: names
    else if n < name then n :: insert name names
    else n :: names

def sorted (names : List String) : List String :=
  names.foldr insert []

theorem mem_insert {name m : String} {names : List String} :
    m ∈ insert name names ↔ m = name ∨ m ∈ names := by
  induction names with
  | nil => simp [insert]
  | cons n names ih =>
    unfold insert
    split
    · simp
    · split
      · simp [ih, or_left_comm]
      · next h₁ h₂ =>
        -- neither is smaller, so that the two names are one
        have : name = n := String.le_antisymm (String.not_lt.mp h₂) (String.not_lt.mp h₁)
        simp [this]

/-- Insertion keeps the list strictly increasing, also where the name is there already. -/
theorem pairwise_insert {name : String} {names : List String}
    (h : names.Pairwise (· < ·)) : (insert name names).Pairwise (· < ·) := by
  induction names with
  | nil => simp [insert]
  | cons n names ih =>
    have ⟨hn, hnames⟩ := List.pairwise_cons.mp h
    unfold insert
    split
    · next hlt =>
      -- the name comes before all others
      refine List.pairwise_cons.mpr ⟨fun m hm => ?_, h⟩
      rcases List.mem_cons.mp hm with rfl | hm
      · exact hlt
      · exact String.lt_trans hlt (hn m hm)
    · split
      · next hgt =>
        -- the name goes further down, where everything is larger than the first
        refine List.pairwise_cons.mpr ⟨fun m hm => ?_, ih hnames⟩
        rcases mem_insert.mp hm with rfl | hm
        · exact hgt
        · exact hn m hm
      · exact h

/-- Sorting loses no name and adds none; only repetitions go. -/
theorem mem_sorted {m : String} {names : List String} : m ∈ sorted names ↔ m ∈ names := by
  induction names with
  | nil => simp [sorted]
  | cons n names ih =>
    have : sorted (n :: names) = insert n (sorted names) := rfl
    simp [this, mem_insert, ih]

/-- A sorted list strictly increases: each of its names is put into one that does. -/
theorem pairwise_sorted (names : List String) : (sorted names).Pairwise (· < ·) := by
  induction names with
  | nil => exact .nil
  | cons n names ih => exact pairwise_insert ih

end ScanAudit.Names
