import Mathlib.Data.List.Sort
import ScanAudit.Proofs.Audit.Totals
import ScanAudit.Proofs.Plan.Traversal
import ScanAudit.Stored.Audit
import ScanAudit.Stored.Explain
import ScanAudit.Stored.Log
import ScanAudit.Stored.Plan

/-!
# Stored values are read back

Whatever is stored is read back as it was, with trees of any depth. A reader also takes values that
nobody stored: with fields that it does not know, without fields that may be absent, or with arrays
in the place of objects. What it makes of them is stored in one way only. Only paths can keep a
value from being stored: they are stored as texts, and some are none.

* `RoundTrips` — a writer and a reader that fit together
* `nullable?_ofOption`, `mapM_map` — fields that may be absent, and lists
* `Config.IsText`, `Config.toJson?_eq_none_iff` — configurations that can be stored
* `Tree.ofJson?_toJson` — a step with those below it
* `Totals.ofJson?_toJson` — totals, one table after the other
* `stored_roundTrips` — all values that are stored
* `bytesConfig_unstored` — a configuration that cannot be stored
-/

namespace ScanAudit

open Json

/-- A writer and a reader of values, of which only some can be stored. -/
structure RoundTrips {α : Type} (write? : α → Option Json) (read? : Json → Option α)
    (Storable : α → Prop) : Prop where
  /-- What can be stored is written, and what is written is read back. -/
  readBack : ∀ a, Storable a → ∃ written, write? a = some written ∧ read? written = some a
  /-- What is read is written in a form that is read as the same and written as the same. -/
  rewritten : ∀ value a, read? value = some a → ∃ written b,
    write? a = some written ∧ read? written = some b ∧ b = a ∧ write? b = some written

namespace Json

/-- If only values that can be stored are read, it is enough that these are read back. -/
theorem roundTrips {α : Type} {write? : α → Option Json} {read? : Json → Option α}
    {Storable : α → Prop}
    (hback : ∀ a, Storable a → ∃ written, write? a = some written ∧ read? written = some a)
    (hrange : ∀ value a, read? value = some a → Storable a) :
    RoundTrips write? read? Storable where
  readBack := hback
  rewritten value a h := by
    obtain ⟨written, hwritten, hread⟩ := hback a (hrange value a h)
    exact ⟨written, a, hwritten, hread, rfl, hwritten⟩

theorem roundTrips_some {α : Type} {write : α → Json} {read? : Json → Option α}
    {Storable : α → Prop} (hback : ∀ a, Storable a → read? (write a) = some a)
    (hrange : ∀ value a, read? value = some a → Storable a) :
    RoundTrips (fun a => some (write a)) read? Storable :=
  roundTrips (fun a h => ⟨write a, rfl, hback a h⟩) hrange

/-! ## Fields and lists -/

theorem required?_eq_some_iff {α : Type} {read? : Json → Option α} {fields : Fields}
    {name : String} {a : α} :
    required? read? fields name = some a ↔
      ∃ value, field? fields name = some value ∧ read? value = some a :=
  Option.bind_eq_some_iff

/-- The value of a field that may be absent, where it is there. -/
def nullable? {α : Type} (read? : Json → Option α) : Json → Option (Option α)
  | .null => some none
  | value => (read? value).map some

/-- A field that may be absent is the first one with its name. -/
theorem optional?_cons {α : Type} (read? : Json → Option α) (name n : String) (value : Json)
    (fields : Fields) :
    optional? read? ((n, value) :: fields) name =
      if name = n then nullable? read? value else optional? read? fields name := by
  rw [optional?, field?_cons]
  by_cases h : name = n
  · rw [if_pos h, if_pos h]
    cases value <;> rfl
  · rw [if_neg h, if_neg h, optional?]

/-- A value is not taken for the null of an absent one, as its reader does not read that. -/
theorem nullable?_ofOption {α : Type} {write : α → Json} {read? : Json → Option α}
    (hback : ∀ a, read? (write a) = some a) (hnull : read? .null = none) (o : Option α) :
    nullable? read? (ofOption write o) = some o := by
  -- an absent value is null, and no other value is
  cases o with
  | none => rfl
  | some a =>
    have hread : read? (write a) = some a := hback a
    rw [ofOption, nullable?, hread]
    · rfl
    · intro hvalue
      rw [hvalue, hnull] at hread
      cases hread

theorem nullable?_ofOption_str (o : Option String) :
    nullable? asString? (ofOption .str o) = some o :=
  nullable?_ofOption (fun s => show asString? (.str s) = some s from rfl) rfl o

theorem mapM_map {α : Type} {write : α → Json} {read? : Json → Option α} {as : List α}
    (h : ∀ a ∈ as, read? (write a) = some a) : (as.map write).mapM read? = some as := by
  induction as with
  | nil => rfl
  | cons a as ih =>
    rw [List.map_cons, List.mapM_cons, h a (.head _), ih fun b hb => h b (.tail _ hb)]
    rfl

theorem lt_size_of_asNatural? {value : Json} {n : Nat} (h : asNatural? value = some n) :
    n < UInt64.size := by
  unfold asNatural? at h
  split at h
  · split at h
    · next hlt =>
      obtain rfl := Option.some.inj h
      exact hlt
    · cases h
  · cases h

theorem asName?_str {α : Type} {ofName? : String → Option α} {name : α → String}
    (h : ∀ a, ofName? (name a) = some a) (a : α) : asName? ofName? (.str (name a)) = some a :=
  h a

end Json

/-! ## Records -/

namespace Log.Entry

/-- The numbers of an entry fit into 64 bits. -/
def InRange (entry : Entry) : Prop :=
  entry.lineNumber < UInt64.size ∧ entry.executions < UInt64.size

/-- Entries whose numbers fit are read back. -/
theorem ofJson?_toJson {entry : Entry} (h : entry.InRange) :
    Entry.ofJson? entry.toJson = some entry := by
  simp [Entry.ofJson?, Entry.toJson, asRecord?, required?, field?_cons, asString?,
    asNatural?_ofNat h.1, asNatural?_ofNat h.2]

/-- The numbers of an entry that is read fit. -/
theorem inRange_of_ofJson? {value : Json} {entry : Entry} (h : Entry.ofJson? value = some entry) :
    entry.InRange := by
  simp only [Entry.ofJson?, bind, Option.bind_eq_some_iff, required?_eq_some_iff] at h
  obtain ⟨fields, -, lineNumber, ⟨_, -, hline⟩, query, -, executions, ⟨_, -, hcount⟩, heq⟩ := h
  obtain rfl := Option.some.inj heq
  exact ⟨lt_size_of_asNatural? hline, lt_size_of_asNatural? hcount⟩

end Log.Entry

/-! ## Configurations -/

/-- A path is written if it is a text, as that text. -/
theorem Path.toJson?_eq_some_iff {path : Path} {value : Json} :
    path.toJson? = some value ↔ ∃ text, path = .ofString text ∧ value = .str text := by
  rw [toJson?, Option.map_eq_some_iff]
  constructor
  · rintro ⟨text, htext, rfl⟩
    exact ⟨text, (ofString_of_text? htext).symm, rfl⟩
  · rintro ⟨text, rfl, rfl⟩
    exact ⟨text, text?_ofString text, rfl⟩

namespace Config

/-- All paths of a configuration are texts. -/
structure IsText (config : Config) : Prop where
  logPath : ∃ text, config.logPath = .ofString text
  databasePath : ∃ text, config.databasePath = .ofString text
  schemaPath : ∀ path, config.schemaPath = some path → ∃ text, path = .ofString text

/-- A configuration is written if all its paths are texts, and what is written is read back. -/
theorem IsText.readBack {config : Config} (h : config.IsText) :
    ∃ written, config.toJson? = some written ∧ Config.ofJson? written = some config := by
  obtain ⟨logPath, databasePath, schemaPath, policy⟩ := config
  obtain ⟨⟨log, rfl⟩, ⟨database, rfl⟩, hschema⟩ := h
  have hpolicy : Policy.ofJson? policy.toJson = some policy :=
    asName?_str Policy.ofName?_name policy
  -- without a schema the field is null
  cases schemaPath with
  | none =>
    exact ⟨_, by simp [toJson?, Path.toJson?]; rfl,
      by simp [Config.ofJson?, asRecord?, required?, field?_cons, Path.ofJson?, asString?,
        optional?_cons, nullable?, hpolicy]⟩
  | some path =>
    obtain ⟨schema, rfl⟩ := hschema path rfl
    exact ⟨_, by simp [toJson?, Path.toJson?]; rfl,
      by simp [Config.ofJson?, asRecord?, required?, field?_cons, Path.ofJson?, asString?,
        optional?_cons, nullable?, hpolicy]⟩

theorem isText_of_toJson? {config : Config} {written : Json}
    (h : config.toJson? = some written) : config.IsText := by
  simp only [toJson?, bind, Option.bind_eq_some_iff] at h
  obtain ⟨_, hlog, _, hdatabase, _, hschema, -⟩ := h
  obtain ⟨log, hlog, -⟩ := Path.toJson?_eq_some_iff.mp hlog
  obtain ⟨database, hdatabase, -⟩ := Path.toJson?_eq_some_iff.mp hdatabase
  refine ⟨⟨log, hlog⟩, ⟨database, hdatabase⟩, fun path hpath => ?_⟩
  rw [hpath, Option.mapM_some] at hschema
  obtain ⟨_, hvalue, -⟩ := Option.map_eq_some_iff.mp hschema
  obtain ⟨schema, hschema, -⟩ := Path.toJson?_eq_some_iff.mp hvalue
  exact ⟨schema, hschema⟩

/-- A configuration is refused if a path is no text, and only then. -/
theorem toJson?_eq_none_iff {config : Config} : config.toJson? = none ↔ ¬config.IsText := by
  rw [← not_iff_not, not_not, ← ne_eq, Option.ne_none_iff_exists']
  exact ⟨fun ⟨_, hwritten⟩ => isText_of_toJson? hwritten, fun h => h.readBack.imp fun _ h => h.1⟩

theorem exists_text_of_ofJson? {value : Json} {path : Path} (h : Path.ofJson? value = some path) :
    ∃ text, path = .ofString text := by
  obtain ⟨text, -, rfl⟩ := Option.map_eq_some_iff.mp h
  exact ⟨text, rfl⟩

theorem isText_of_ofJson? {config : Config} {value : Json}
    (h : Config.ofJson? value = some config) : config.IsText := by
  simp only [Config.ofJson?, bind, Option.bind_eq_some_iff, required?_eq_some_iff] at h
  obtain ⟨fields, -, logPath, ⟨_, -, hlog⟩, databasePath, ⟨_, -, hdatabase⟩, schemaPath, hschema,
    policy, -, heq⟩ := h
  obtain rfl := Option.some.inj heq
  refine ⟨exists_text_of_ofJson? hlog, exists_text_of_ofJson? hdatabase, fun path hpath => ?_⟩
  obtain rfl : schemaPath = some path := hpath
  -- a field that holds a path is there and is not null
  unfold optional? at hschema
  split at hschema
  · cases hschema
  · cases hschema
  · obtain ⟨_, hvalue, heq⟩ := Option.map_eq_some_iff.mp hschema
    exact exists_text_of_ofJson? (Option.some.inj heq ▸ hvalue)

end Config

namespace Explain

theorem Row.ofJson?_toJson (row : Row) : Row.ofJson? row.toJson = some row := by
  simp [Row.ofJson?, Row.toJson, asRecord?, required?, field?_cons, asString?, asInt64?_ofInt64]

theorem Check.ofJson?_toJson (check : Check) : Check.ofJson? check.toJson = some check := by
  have hrows : (check.rows.map Row.toJson).mapM Row.ofJson? = some check.rows :=
    mapM_map fun row _ => Row.ofJson?_toJson row
  simp [Check.ofJson?, Check.toJson, asRecord?, required?, field?_cons, asArray?, asBool?, hrows]

end Explain

/-! ## Steps -/

namespace Plan

/-- A step is read back, whatever fields come behind its own. -/
theorem Step.ofFields?_toFields (step : Step) (rest : Fields) :
    Step.ofFields? (step.toFields ++ rest) = some step := by
  have hkind : asName? Kind.ofName? (.str step.kind.name) = some step.kind :=
    asName?_str Kind.ofName?_name step.kind
  have hid : nullable? asInt64? (ofOption ofInt64 step.id) = some step.id :=
    nullable?_ofOption asInt64?_ofInt64 rfl step.id
  have hjoin : nullable? (asName? Join.ofName?)
      (ofOption (fun join => .str join.name) step.join) = some step.join :=
    nullable?_ofOption (asName?_str Join.ofName?_name) rfl step.join
  simp [Step.ofFields?, Step.toFields, required?, field?_cons, asFields?, optional?_cons,
    nullable?_ofOption_str, hkind, hid, hjoin]

/-- The reader of the children looks for their field and reads it. -/
theorem Tree.childrenOfFields?_eq (fields : Fields) :
    Tree.childrenOfFields? fields = (field? fields "children").bind Tree.childrenOfJson? := by
  induction fields with
  | nil => rfl
  | cons field fields ih =>
    obtain ⟨name, value⟩ := field
    rw [Tree.childrenOfFields?, field?_cons, ih]
    -- the first field is that of the children, or it is passed over
    by_cases h : name = "children"
    · rw [if_pos h, if_pos h.symm]
      rfl
    · rw [if_neg h, if_neg (Ne.symm h)]

theorem Tree.listToJson_eq_map (trees : List Tree) :
    Tree.listToJson trees = trees.map Tree.toJson := by
  induction trees with
  | nil => rfl
  | cons tree trees ih => rw [Tree.listToJson, ih, List.map_cons]

theorem Tree.listOfJson?_eq_mapM (items : List Json) :
    Tree.listOfJson? items = items.mapM Tree.ofJson? := by
  induction items with
  | nil => rfl
  | cons item items ih =>
    rw [Tree.listOfJson?, ih, List.mapM_cons]
    rfl

/-- A tree of any depth: below each step the list of steps is read back, if each of them is. -/
theorem Tree.ofJson?_toJson (tree : Tree) : Tree.ofJson? (Tree.toJson tree) = some tree := by
  induction tree using RoseTree.children_induction with
  | hnode step children ih =>
    have hlist : Tree.listOfJson? (Tree.listToJson children) = some children := by
      rw [Tree.listOfJson?_eq_mapM, Tree.listToJson_eq_map]
      exact mapM_map ih
    have hchildren : Tree.childrenOfFields?
        (step.toFields ++ [("children", .arr (Tree.listToJson children))]) = some children := by
      rw [Tree.childrenOfFields?_eq]
      simp [Step.toFields, field?_cons, Tree.childrenOfJson?, hlist]
    rw [Tree.toJson, Tree.ofJson?, Step.ofFields?_toFields, hchildren]
    rfl

theorem planOfJson?_planToJson (tree : Tree) : planOfJson? (planToJson tree) = some tree := by
  simp [planOfJson?, planToJson, asRecord?, required?, field?_cons, Tree.ofJson?_toJson]

end Plan

/-! ## Totals and summaries -/

namespace Audit

theorem Totals.lookup_filter_bne (entries : List (String × UInt64)) (table u : String) :
    (entries.filter (·.1 != table)).lookup u = if u = table then none else entries.lookup u := by
  induction entries with
  | nil => simp
  | cons e entries ih =>
    obtain ⟨t, m⟩ := e
    -- the entry is the one that is left out, or it stays
    by_cases htable : t = table
    · subst htable
      rw [List.filter_cons_of_neg (by simp), ih]
      split
      · rfl
      · next hne => rw [lookup_cons_of_ne hne]
    · rw [List.filter_cons_of_pos (by simpa using htable)]
      by_cases hu : u = t
      · subst hu
        rw [lookup_cons_self, lookup_cons_self, if_neg htable]
      · rw [lookup_cons_of_ne hu, lookup_cons_of_ne hu, ih]

theorem Totals.get?_set (totals : Totals) (table : String) (n : UInt64) (u : String) :
    (totals.set table n).get? u = if u = table then some n else totals.get? u := by
  have hothers (v : String) : (totals.entries.filter (·.1 != table)).lookup v =
      if v = table then none else totals.get? v := lookup_filter_bne totals.entries table v
  rw [Totals.set, get?_add]
  by_cases h : u = table
  · rw [if_pos h, if_pos h, Totals.get?, hothers, if_pos rfl, Option.getD_none, UInt64.zero_add]
  · rw [if_neg h, if_neg h, Totals.get?, hothers, if_neg h]

/-- Totals with the same number for each table are the same. -/
theorem Totals.ext_get? {a b : Totals} (h : ∀ table, a.get? table = b.get? table) : a = b := by
  apply Totals.ext
  have : Std.Irrefl fun d e : String × UInt64 => d.1 < e.1 := ⟨fun e => String.lt_irrefl e.1⟩
  refine List.Pairwise.eq_of_mem_iff a.increasing b.increasing fun ⟨table, n⟩ => ?_
  rw [Totals.mem_entries_iff, Totals.mem_entries_iff, h]

theorem Totals.ofJson?_obj (fields : Fields) :
    Totals.ofJson? (.obj fields) = fields.foldlM
      (fun totals field => (asUInt64? field.2).map (totals.set field.1)) .empty := rfl

/-- The totals set for some tables, none of them named twice, are theirs; the other tables have what
they had. -/
theorem Totals.get?_foldlM_set {entries : List (String × UInt64)}
    (hdistinct : entries.Pairwise (·.1 < ·.1)) (totals : Totals) :
    ∃ result, (entries.map fun e => (e.1, ofUInt64 e.2)).foldlM
        (fun totals (field : String × Json) => (asUInt64? field.2).map (totals.set field.1))
        totals = some result ∧
      ∀ u, result.get? u = (entries.lookup u).or (totals.get? u) := by
  induction entries generalizing totals with
  | nil => exact ⟨totals, rfl, fun u => rfl⟩
  | cons e entries ih =>
    obtain ⟨t, m⟩ := e
    obtain ⟨hfirst, hrest⟩ := List.pairwise_cons.mp hdistinct
    obtain ⟨result, hresult, hget⟩ := ih hrest (totals.set t m)
    refine ⟨result, ?_, fun u => ?_⟩
    · rw [List.map_cons, List.foldlM_cons, asUInt64?_ofUInt64]
      exact hresult
    · rw [hget, get?_set]
      -- the first table is not listed again, so the rest does not change what it got
      by_cases hu : u = t
      · subst hu
        rw [if_pos rfl, lookup_eq_none_of_lt hfirst, lookup_cons_self]
        rfl
      · rw [if_neg hu, lookup_cons_of_ne hu]

/-- Totals are read back: they are set table by table, and no table is listed twice. -/
theorem Totals.ofJson?_toJson (totals : Totals) : Totals.ofJson? totals.toJson = some totals := by
  obtain ⟨result, hresult, hget⟩ := get?_foldlM_set totals.increasing .empty
  have hsame : result = totals := by
    refine ext_get? fun u => ?_
    rw [hget, get?_empty, Option.or_none]
    rfl
  rw [Totals.toJson, Totals.ofJson?_obj, hresult, hsame]

namespace Summary

/-- The counts of a summary fit into 64 bits. -/
structure InRange (summary : Summary) : Prop where
  entries : summary.entries < UInt64.size
  flagged : summary.flagged < UInt64.size
  skipped : summary.skipped < UInt64.size

/-- Summaries whose counts fit are read back. -/
theorem ofJson?_toJson {summary : Summary} (h : summary.InRange) :
    Summary.ofJson? summary.toJson = some summary := by
  simp [Summary.ofJson?, Summary.toJson, asRecord?, required?, field?_cons,
    asNatural?_ofNat h.entries, asNatural?_ofNat h.flagged, asNatural?_ofNat h.skipped,
    Totals.ofJson?_toJson]

/-- The counts of a summary that is read fit. -/
theorem inRange_of_ofJson? {value : Json} {summary : Summary}
    (h : Summary.ofJson? value = some summary) : summary.InRange := by
  simp only [Summary.ofJson?, bind, Option.bind_eq_some_iff, required?_eq_some_iff] at h
  obtain ⟨fields, -, entries, ⟨_, -, hentries⟩, flagged, ⟨_, -, hflagged⟩, skipped,
    ⟨_, -, hskipped⟩, totals, -, heq⟩ := h
  obtain rfl := Option.some.inj heq
  exact ⟨lt_size_of_asNatural? hentries, lt_size_of_asNatural? hflagged,
    lt_size_of_asNatural? hskipped⟩

end Summary

end Audit

/-! ## All stored values -/

/-- Every stored value is read back, and every value that is read is stored in a form of its own:
plans of any shape with anything in their extra fields, rows and checks without a condition, entries
and summaries if their counts fit into 64 bits, as all that are read do, and configurations if their
paths are texts, as all that are read are. A configuration with another path is not stored. -/
theorem stored_roundTrips :
    RoundTrips (fun plan => some (Plan.planToJson plan)) Plan.planOfJson? (fun _ => True) ∧
      RoundTrips (fun entry => some (Log.Entry.toJson entry)) Log.Entry.ofJson?
        Log.Entry.InRange ∧
      (RoundTrips Config.toJson? Config.ofJson? Config.IsText ∧
        ∀ config : Config, config.toJson? = none ↔ ¬config.IsText) ∧
      RoundTrips (fun row => some (Explain.Row.toJson row)) Explain.Row.ofJson?
        (fun _ => True) ∧
      RoundTrips (fun check => some (Explain.Check.toJson check)) Explain.Check.ofJson?
        (fun _ => True) ∧
      RoundTrips (fun summary => some (Audit.Summary.toJson summary)) Audit.Summary.ofJson?
        Audit.Summary.InRange := by
  refine ⟨?plan, ?entry, ⟨?config, ?refused⟩, ?row, ?check, ?summary⟩
  case plan =>
    exact roundTrips_some (fun tree _ => Plan.planOfJson?_planToJson tree) fun _ _ _ => trivial
  case entry =>
    exact roundTrips_some (fun _ => Log.Entry.ofJson?_toJson) fun _ _ =>
      Log.Entry.inRange_of_ofJson?
  case config =>
    exact roundTrips (fun _ => Config.IsText.readBack) fun _ _ => Config.isText_of_ofJson?
  case refused => exact fun _ => Config.toJson?_eq_none_iff
  case row =>
    exact roundTrips_some (fun row _ => Explain.Row.ofJson?_toJson row) fun _ _ _ => trivial
  case check =>
    exact roundTrips_some (fun check _ => Explain.Check.ofJson?_toJson check) fun _ _ _ => trivial
  case summary =>
    exact roundTrips_some (fun _ => Audit.Summary.ofJson?_toJson) fun _ _ =>
      Audit.Summary.inRange_of_ofJson?

/-- A configuration whose log is under the byte 255, which is no text. -/
def bytesConfig : Config := { logPath := ⟨[0xFF]⟩ }

/-- It is not written, and no value is read as it. -/
theorem bytesConfig_unstored :
    bytesConfig.toJson? = none ∧ ∀ value, Config.ofJson? value ≠ some bytesConfig := by
  have hnone : (Path.mk [0xFF]).text? = none := by decide +kernel
  have hbytes : ¬bytesConfig.IsText := by
    rintro ⟨⟨text, htext⟩, -, -⟩
    have hpath : Path.mk [0xFF] = .ofString text := htext
    rw [hpath, Path.text?_ofString] at hnone
    cases hnone
  exact ⟨Config.toJson?_eq_none_iff.mpr hbytes,
    fun value hvalue => hbytes (Config.isText_of_ofJson? hvalue)⟩

-- unknown fields, missing ones and an array for an object, at two levels of a plan
example :
    Plan.planOfJson? (.obj [("version", .int 2), ("root", .obj [
      ("node_type", .str "append"), ("note", .null), ("extra", .obj []),
      ("children", .arr [
        .obj [("node_type", .str "seq_scan"), ("relation", .str "t"), ("cost", .int 3),
          ("children", .arr []), ("extra", .obj [("k", .int 7)])],
        .arr [.str "sort", .int 4, .null, .null, .null, .null, .null, .arr [], .obj []]])])]) =
      some (.node { kind := .append } [
        .node { kind := .seqScan, relation := some "t", extra := [("k", .int 7)] } [],
        .node { kind := .sort, id := some 4 } []]) := by
  rfl

end ScanAudit
