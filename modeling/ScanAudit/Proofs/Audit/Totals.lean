import ScanAudit.Audit.Totals

/-!
# Totals as a map

The list of totals is read by looking a table up. Adding changes what is found for one table, and
adding for several tables changes it for each of them once.

* `mem_entries_iff` — a listed total is one that is found
* `get?_add`, `get?_addAll` — what is found after adding
* `isSome_get?_addAll` — the tables that have a total after adding
-/

namespace ScanAudit.Audit.Totals

/-! ## Looking up in a list of pairs -/

theorem lookup_cons_self (table : String) (n : UInt64) (entries : List (String × UInt64)) :
    ((table, n) :: entries).lookup table = some n := by
  rw [List.lookup_cons, beq_self_eq_true]

theorem lookup_cons_of_ne {table t : String} (h : table ≠ t) (n : UInt64)
    (entries : List (String × UInt64)) :
    ((t, n) :: entries).lookup table = entries.lookup table := by
  rw [List.lookup_cons, beq_eq_false_iff_ne.mpr h]

/-- A table that comes before all that are listed is not among them. -/
theorem lookup_eq_none_of_lt {table : String} {entries : List (String × UInt64)}
    (h : ∀ e ∈ entries, table < e.1) : entries.lookup table = none := by
  refine List.lookup_eq_none_iff.mpr fun e he => ?_
  have hne : table ≠ e.1 := String.ne_of_lt (h e he)
  simpa using hne

/-- Where the names increase, each table is listed at most once, so that its pair is the one that is
found. -/
theorem mem_iff_lookup {entries : List (String × UInt64)} (h : entries.Pairwise (·.1 < ·.1))
    {table : String} {n : UInt64} : (table, n) ∈ entries ↔ entries.lookup table = some n := by
  induction entries with
  | nil => simp
  | cons e entries ih =>
    obtain ⟨hfirst, hrest⟩ := List.pairwise_cons.mp h
    rcases e with ⟨t, m⟩
    by_cases heq : table = t
    · subst heq
      -- the table is not listed again
      have hnot : (table, n) ∉ entries := fun hn => String.lt_irrefl table (hfirst _ hn)
      rw [List.mem_cons, or_iff_left hnot, lookup_cons_self]
      simp [eq_comm]
    · rw [lookup_cons_of_ne heq, ← ih hrest]
      simp [heq]

/-- Adding for a table changes what is found for it and nothing else. -/
theorem lookup_addTo {entries : List (String × UInt64)} (h : entries.Pairwise (·.1 < ·.1))
    (table : String) (n : UInt64) (u : String) :
    (addTo table n entries).lookup u =
      if u = table then some ((entries.lookup table).getD 0 + n) else entries.lookup u := by
  induction entries with
  | nil =>
    split
    · next heq => subst heq; simp [addTo]
    · next hne => rw [addTo, lookup_cons_of_ne hne]
  | cons e entries ih =>
    obtain ⟨hfirst, hrest⟩ := List.pairwise_cons.mp h
    rcases e with ⟨t, m⟩
    unfold addTo
    by_cases hlt : table < t
    · -- the table comes before all that are listed, so it is not among them
      have hnew : ((t, m) :: entries).lookup table = none := by
        refine lookup_eq_none_of_lt fun e he => ?_
        rcases List.mem_cons.mp he with rfl | he
        · exact hlt
        · exact String.lt_trans hlt (hfirst e he)
      rw [if_pos hlt, hnew]
      split
      · next heq => subst heq; rw [lookup_cons_self]; simp
      · next hne => rw [lookup_cons_of_ne hne]
    · rw [if_neg hlt]
      by_cases hgt : t < table
      · -- the first pair stays, and the rest is the case of the induction
        rw [if_pos hgt, lookup_cons_of_ne (String.ne_of_lt hgt).symm]
        by_cases hu : u = t
        · subst hu
          rw [lookup_cons_self, lookup_cons_self, if_neg (String.ne_of_lt hgt)]
        · rw [lookup_cons_of_ne hu, lookup_cons_of_ne hu, ih hrest]
      · -- the first pair is the table's own
        rw [if_neg hgt]
        obtain rfl : table = t :=
          String.le_antisymm (String.not_lt.mp hgt) (String.not_lt.mp hlt)
        rw [lookup_cons_self]
        split
        · next heq => subst heq; rw [lookup_cons_self]; rfl
        · next hne => rw [lookup_cons_of_ne hne, lookup_cons_of_ne hne]

/-! ## Totals -/

/-- The pairs of the totals are the tables with what is found for them. -/
theorem mem_entries_iff {totals : Totals} {table : String} {n : UInt64} :
    (table, n) ∈ totals.entries ↔ totals.get? table = some n :=
  mem_iff_lookup totals.increasing

theorem get?_empty (table : String) : empty.get? table = none := rfl

theorem get?_add (totals : Totals) (table : String) (n : UInt64) (u : String) :
    (totals.add table n).get? u =
      if u = table then some ((totals.get? table).getD 0 + n) else totals.get? u :=
  lookup_addTo totals.increasing table n u

/-- Adding for several tables, none of them named twice, adds once for each of them. -/
theorem get?_addAll {tables : List String} (h : tables.Nodup) (totals : Totals) (n : UInt64)
    (u : String) :
    (totals.addAll tables n).get? u =
      if u ∈ tables then some ((totals.get? u).getD 0 + n) else totals.get? u := by
  induction tables generalizing totals with
  | nil => rfl
  | cons table tables ih =>
    obtain ⟨hfresh, hnodup⟩ := List.nodup_cons.mp h
    rw [addAll, List.foldl_cons, ← addAll, ih hnodup, get?_add]
    by_cases heq : u = table
    · -- the table is named first, and not again
      subst heq
      rw [if_neg hfresh, if_pos rfl, if_pos (.head _)]
    · -- another table: what is found for it hangs on the other names
      rw [if_neg heq]
      simp [heq]

/-- Adding never takes a total away: a table has one if it had one, or if it is added to. -/
theorem isSome_get?_addAll {tables : List String} (h : tables.Nodup) (totals : Totals) (n : UInt64)
    (table : String) :
    ((totals.addAll tables n).get? table).isSome ↔ table ∈ tables ∨ (totals.get? table).isSome := by
  rw [get?_addAll h]
  by_cases hmem : table ∈ tables <;> simp [hmem]

end ScanAudit.Audit.Totals
