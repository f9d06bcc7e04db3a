/-!
# Totals per table

* `Totals` — a number of 64 bits for each of finitely many tables, in the order of their names
* `Totals.add` — a number added for a table, which is there from then on; a sum that does not fit
  starts again from zero
* `Totals.hottest` — the tables with the largest numbers first
-/

namespace ScanAudit.Audit

/-- Every table is listed once, and the names increase by code point: equal totals are the same
list. -/
structure Totals where
  entries : List (String × UInt64)
  increasing : entries.Pairwise (·.1 < ·.1)

namespace Totals

/-- Two totals are the same if they list the same numbers. -/
theorem ext {a b : Totals} (h : a.entries = b.entries) : a = b := by
  cases a; cases b; cases h; rfl

def empty : Totals := ⟨[], .nil⟩

def addTo (table : String) (n : UInt64) : List (String × UInt64) → List (String × UInt64)
  | [] => [(table, n)]
  | (t, m) :: entries =>
    if table < t then (table, n) :: (t, m) :: entries
    else if t < table then (t, m) :: addTo table n entries
    else (t, m + n) :: entries

/-- Adding brings in no table but the one that is added to. -/
theorem fst_of_mem_addTo {table : String} {n : UInt64} {entries : List (String × UInt64)}
    {e : String × UInt64} (h : e ∈ addTo table n entries) :
    e.1 = table ∨ ∃ e' ∈ entries, e.1 = e'.1 := by
  induction entries with
  | nil => simp [addTo] at h; simp [h]
  | cons d entries ih =>
    unfold addTo at h
    split at h
    · rcases List.mem_cons.mp h with rfl | h
      · exact .inl rfl
      · exact .inr ⟨e, h, rfl⟩
    · split at h
      · rcases List.mem_cons.mp h with rfl | h
        · exact .inr ⟨d, List.mem_cons_self, rfl⟩
        · rcases ih h with h | ⟨e', he', h⟩
          · exact .inl h
          · exact .inr ⟨e', List.mem_cons_of_mem _ he', h⟩
      · rcases List.mem_cons.mp h with rfl | h
        · exact .inr ⟨d, List.mem_cons_self, rfl⟩
        · exact .inr ⟨e, List.mem_cons_of_mem _ h, rfl⟩

/-- The order by name survives an addition: this is what makes `add` a map of totals. The induction
follows the list to the place of the table. -/
theorem pairwise_addTo {table : String} {n : UInt64} {entries : List (String × UInt64)}
    (h : entries.Pairwise (·.1 < ·.1)) : (addTo table n entries).Pairwise (·.1 < ·.1) := by
  induction entries with
  | nil => simp [addTo]
  | cons d entries ih =>
    have ⟨hd, hentries⟩ := List.pairwise_cons.mp h
    unfold addTo
    split
    · next hlt =>
      -- the table is new and comes before all others
      refine List.pairwise_cons.mpr ⟨fun e he => ?_, h⟩
      rcases List.mem_cons.mp he with rfl | he
      · exact hlt
      · exact String.lt_trans hlt (hd e he)
    · split
      · next hgt =>
        -- the place of the table is further down, behind a smaller name
        refine List.pairwise_cons.mpr ⟨fun e he => ?_, ih hentries⟩
        rcases fst_of_mem_addTo he with h | ⟨e', he', h⟩
        · exact h ▸ hgt
        · exact h ▸ hd e' he'
      · -- the table is there, and its name stays
        exact List.pairwise_cons.mpr ⟨hd, hentries⟩

def add (totals : Totals) (table : String) (n : UInt64) : Totals :=
  ⟨addTo table n totals.entries, pairwise_addTo totals.increasing⟩

/-- The same number added for each of some tables. -/
def addAll (totals : Totals) (tables : List String) (n : UInt64) : Totals :=
  tables.foldl (·.add · n) totals

def get? (totals : Totals) (table : String) : Option UInt64 :=
  totals.entries.lookup table

/-- A table ranks before another with a smaller total, and of two with the same total the one
with the smaller name is first. -/
def ranksBefore (a b : String × UInt64) : Bool :=
  b.2 < a.2 || (a.2 == b.2 && a.1 ≤ b.1)

def hottest (totals : Totals) : List (String × UInt64) :=
  totals.entries.mergeSort ranksBefore

end Totals

end ScanAudit.Audit
