import Mathlib.Data.List.Nodup
import Mathlib.Data.String.Basic
import ScanAudit.Audit.Event
import ScanAudit.Proofs.Audit.Totals

/-!
# The ranking of the totals

The tables of a summary are listed from the largest total on. The comparison behind the list is a
linear order of the pairs of a table and its total: totals are compared first, downwards, and names
only where the totals are the same, upwards. So there is one list that has every total and obeys
the comparison, and it depends on nothing but what is found for each table.

* `codePoints_lt_iff` — names are ordered as the sequences of their code points
* `ranksBefore_trans`, `ranksBefore_total`, `ranksBefore_antisymm` — the comparison is linear
* `ranksBefore_iff_of_ne` — what it says of two different pairs
* `Ranks` — a list that ranks totals
* `ranks_iff` — rankings are the rearrangements of the totals that obey the comparison
* `ranks_iff_eq_hottest` — there is one ranking of the totals
* `hottest_unique` — the hottest tables of a summary
-/

namespace ScanAudit.Audit

namespace Totals

/-! ## The order of names -/

def codePoints (name : String) : List Nat :=
  name.toList.map Char.toNat

/-- Names are in the order of their code points. Characters are compared by these, so a smaller name
has smaller code points; the converse holds because one of two different names is the smaller. -/
theorem codePoints_lt_iff {s t : String} : codePoints s < codePoints t ↔ s < t := by
  have hmono {s t : String} (h : s < t) : codePoints s < codePoints t :=
    List.map_lt (fun _ _ hlt => hlt) (String.lt_iff_toList_lt.mp h)
  refine ⟨fun h => ?_, hmono⟩
  by_contra hnot
  rcases lt_or_eq_of_le (String.not_lt.mp hnot) with hlt | rfl
  · -- the other name is the smaller, and so are its code points
    exact List.lt_asymm h (hmono hlt)
  · exact List.lt_irrefl _ h

/-! ## The comparison -/

theorem ranksBefore_iff {a b : String × UInt64} :
    ranksBefore a b ↔ b.2 < a.2 ∨ a.2 = b.2 ∧ a.1 ≤ b.1 := by
  simp [ranksBefore]

/-- By cases on which of the two levels decides: a larger total decides at once, and equal totals
leave it to the names. -/
theorem ranksBefore_trans (a b c : String × UInt64) (hab : ranksBefore a b)
    (hbc : ranksBefore b c) : ranksBefore a c := by
  rw [ranksBefore_iff] at hab hbc ⊢
  rcases hab with hab | ⟨hab, hnames⟩
  · -- the first total is larger, and so it is than any that is not above the second
    rcases hbc with hbc | ⟨hbc, -⟩
    · exact .inl (UInt64.lt_trans hbc hab)
    · exact .inl (hbc ▸ hab)
  · rcases hbc with hbc | ⟨hbc, hnames'⟩
    · exact .inl (hab ▸ hbc)
    · exact .inr ⟨hab.trans hbc, String.le_trans hnames hnames'⟩

/-- Two totals are the same, or one of them is the smaller. -/
theorem total_trichotomy (m n : UInt64) : m < n ∨ m = n ∨ n < m := by
  rw [UInt64.lt_iff_toNat_lt, ← UInt64.toNat_inj, UInt64.lt_iff_toNat_lt]
  exact Nat.lt_trichotomy m.toNat n.toNat

/-- Totals that are not equal decide, and else the names do. -/
theorem ranksBefore_total (a b : String × UInt64) : ranksBefore a b || ranksBefore b a := by
  rw [Bool.or_eq_true, ranksBefore_iff, ranksBefore_iff]
  rcases total_trichotomy a.2 b.2 with hlt | heq | hgt
  · exact .inr (.inl hlt)
  · -- equal totals: one of the names does not come behind the other
    rcases String.le_total a.1 b.1 with hle | hle
    · exact .inl (.inr ⟨heq, hle⟩)
    · exact .inr (.inr ⟨heq.symm, hle⟩)
  · exact .inl (.inl hgt)

/-- Pairs that rank before each other have the same total and the same name. -/
theorem ranksBefore_antisymm {a b : String × UInt64} (hab : ranksBefore a b)
    (hba : ranksBefore b a) : a = b := by
  rw [ranksBefore_iff] at hab hba
  rcases hab with hlt | ⟨htotals, hle⟩
  · -- no total is both larger than another and not larger
    rcases hba with hgt | ⟨htotals, -⟩
    · exact absurd hgt (UInt64.lt_asymm hlt)
    · exact absurd (htotals ▸ hlt) (UInt64.lt_irrefl _)
  · rcases hba with hlt | ⟨-, hge⟩
    · exact absurd (htotals ▸ hlt) (UInt64.lt_irrefl _)
    · exact Prod.ext (String.le_antisymm hle hge) htotals

/-- Of two different pairs the comparison says that the totals do not increase, and that the names
do where the totals are the same. -/
theorem ranksBefore_iff_of_ne {a b : String × UInt64} (hne : a ≠ b) :
    ranksBefore a b ↔ b.2 ≤ a.2 ∧ (a.2 = b.2 → codePoints a.1 < codePoints b.1) := by
  rw [ranksBefore_iff, codePoints_lt_iff]
  constructor
  · rintro (hlt | ⟨htotals, hle⟩)
    · exact ⟨UInt64.le_of_lt hlt, fun htotals => absurd (htotals ▸ hlt) (UInt64.lt_irrefl _)⟩
    · -- the pairs differ, and it is not in the totals
      have hnames : a.1 ≠ b.1 := fun hnames => hne (Prod.ext hnames htotals)
      exact ⟨UInt64.le_of_eq htotals.symm, fun _ => lt_of_le_of_ne hle hnames⟩
  · rintro ⟨hle, hname⟩
    rcases total_trichotomy a.2 b.2 with hlt | heq | hgt
    · exact absurd hle (UInt64.not_le.mpr hlt)
    · exact .inr ⟨heq, le_of_lt (hname heq)⟩
    · exact .inl hgt

/-! ## Rankings -/

/-- A list of tables with their totals that has each of them once and nothing else. No total is
larger than one before it, and tables with the same total increase by code point. -/
structure Ranks (totals : Totals) (ranking : List (String × UInt64)) : Prop where
  listedOnce : ∀ table total,
    ranking.count (table, total) = if totals.get? table = some total then 1 else 0
  descending : ranking.Pairwise fun a b => b.2 ≤ a.2
  byName : ranking.Pairwise fun a b => a.2 = b.2 → codePoints a.1 < codePoints b.1

variable {totals : Totals} {ranking : List (String × UInt64)}

/-- The names increase, so that no pair is listed twice. -/
theorem nodup_entries (totals : Totals) : totals.entries.Nodup :=
  totals.increasing.imp fun hlt heq => String.ne_of_lt hlt (congrArg Prod.fst heq)

/-- A pair is listed once if it is the total of its table, and else not at all. -/
theorem count_entries (totals : Totals) (table : String) (total : UInt64) :
    totals.entries.count (table, total) = if totals.get? table = some total then 1 else 0 := by
  rw [totals.nodup_entries.count]
  simp only [mem_entries_iff]

/-- No pair is listed twice in a rearrangement either. -/
theorem nodup_of_perm_entries (h : ranking.Perm totals.entries) : ranking.Nodup :=
  h.nodup_iff.mpr totals.nodup_entries

/-- The rankings of some totals are their rearrangements that obey the comparison. -/
theorem ranks_iff :
    Ranks totals ranking ↔
      ranking.Perm totals.entries ∧ ranking.Pairwise fun a b => ranksBefore a b := by
  constructor
  · -- as often listed as in the totals, so a rearrangement of them
    intro h
    have hperm : ranking.Perm totals.entries :=
      List.perm_iff_count.mpr fun (table, total) => by rw [h.listedOnce, count_entries]
    have hlaws := (h.descending.and h.byName).and (nodup_of_perm_entries hperm)
    exact ⟨hperm, hlaws.imp fun ⟨hlaw, hne⟩ => (ranksBefore_iff_of_ne hne).mpr hlaw⟩
  · -- the laws of the ranking are those of the comparison between different pairs
    rintro ⟨hperm, hpairwise⟩
    have hlaws := (hpairwise.and (nodup_of_perm_entries hperm)).imp
      fun ⟨hranks, hne⟩ => (ranksBefore_iff_of_ne hne).mp hranks
    refine ⟨fun table total => ?_, hlaws.imp And.left, hlaws.imp And.right⟩
    rw [hperm.count_eq, count_entries]

/-- Sorting gives a list that obeys the comparison, as this is transitive and total. -/
theorem pairwise_hottest (totals : Totals) :
    totals.hottest.Pairwise fun a b => ranksBefore a b :=
  List.pairwise_mergeSort ranksBefore_trans ranksBefore_total totals.entries

/-- So the hottest tables are a ranking. -/
theorem ranks_hottest (totals : Totals) : Ranks totals totals.hottest :=
  ranks_iff.mpr ⟨List.mergeSort_perm totals.entries ranksBefore, totals.pairwise_hottest⟩

/-- There is one ranking of the totals: two rankings are rearrangements of each other, and the
comparison leaves no choice. -/
theorem ranks_iff_eq_hottest : Ranks totals ranking ↔ ranking = totals.hottest := by
  constructor
  · intro h
    obtain ⟨hperm, hpairwise⟩ := ranks_iff.mp h
    obtain ⟨hpermHottest, hpairwiseHottest⟩ := ranks_iff.mp totals.ranks_hottest
    exact List.Perm.eq_of_pairwise (fun _ _ _ _ => ranksBefore_antisymm) hpairwise
      hpairwiseHottest (hperm.trans hpermHottest.symm)
  · rintro rfl
    exact totals.ranks_hottest

/-- What a ranking lists are the totals of the tables. -/
theorem Ranks.mem_iff (h : Ranks totals ranking) {table : String} {total : UInt64} :
    (table, total) ∈ ranking ↔ totals.get? table = some total :=
  (ranks_iff.mp h).1.mem_iff.trans mem_entries_iff

/-- A ranking says of each table which total it has, so it ranks no other totals. -/
theorem Ranks.get?_eq {other : Totals} (h : Ranks totals ranking) (hother : Ranks other ranking)
    (table : String) : totals.get? table = other.get? table :=
  Option.ext fun _ => h.mem_iff.symm.trans hother.mem_iff

/-- A ranking ranks all totals that say the same of each table. -/
theorem Ranks.of_get?_eq {other : Totals} (h : Ranks totals ranking)
    (heq : ∀ table, totals.get? table = other.get? table) : Ranks other ranking where
  listedOnce table total := by rw [h.listedOnce, heq]
  descending := h.descending
  byName := h.byName

end Totals

/-- The hottest tables of a summary are the one ranking of its totals. Two summaries have the same
if and only if they have the same total for every table, in whatever way it was added up. -/
theorem hottest_unique (summary other : Summary) :
    (∀ ranking, summary.scannedTables.Ranks ranking ↔ ranking = summary.scannedTables.hottest) ∧
      (summary.scannedTables.hottest = other.scannedTables.hottest ↔
        ∀ table, summary.scannedTables.get? table = other.scannedTables.get? table) := by
  refine ⟨fun ranking => Totals.ranks_iff_eq_hottest, fun h => ?_, fun h => ?_⟩
  · have hranks := summary.scannedTables.ranks_hottest
    exact hranks.get?_eq (h ▸ other.scannedTables.ranks_hottest)
  · exact Totals.ranks_iff_eq_hottest.mp (summary.scannedTables.ranks_hottest.of_get?_eq h)

/-- Two tables have the same total, and the one that was added last has the largest. -/
example :
    (((Totals.empty.add "b" 2).add "a" 1).addAll ["a", "c"] 1 |>.add "c" 8).hottest =
      [("c", 9), ("a", 2), ("b", 2)] := by
  cbv

end ScanAudit.Audit
