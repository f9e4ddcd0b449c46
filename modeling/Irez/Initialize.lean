/-
  File:      Irez/Initialize.lean
  Subject:   `Store::initialize`, `Store::connect` and `Store::investigation` (store.cpp 57-90,
             121-168) on a database of any content, with the migrations of schema.h.

  The two entries read the schema version in different ways: the one takes the number at the
  front of its text, the other the text itself, and only the other looks for every table.

  * `Content`, `Sql` -- tables with their rows, and statements over them;
  * `migrations` -- the statements that make the tables;
  * `initializeStore`, `connect`, `investigation` -- the entries;
  * `initializeBody_passes`, `initializeBody_empty`, `initializeBody_error` -- what a call does, by
    what it finds;
  * `agrees_iff` -- where the entries agree;
  * `Future` -- a version text between the two checks.

  The directories of the state are there and the file opens: the model starts at the content.
-/
import Irez.Contract
import Irez.Cli

namespace Irez.Initialize

/-! ## 1. The content of a database -/

/-- The tables of the schema. -/
inductive TableName where
  | schemaMeta
  | investigations
  | artifacts
  | analysisRuns
  | entities
  | relations
  | sourceLocations
  | materializations
  | materializationCapabilities
  deriving DecidableEq, Repr

def TableName.text : TableName → String
  | .schemaMeta => "schema_meta"
  | .investigations => "investigations"
  | .artifacts => "artifacts"
  | .analysisRuns => "analysis_runs"
  | .entities => "entities"
  | .relations => "relations"
  | .sourceLocations => "source_locations"
  | .materializations => "materializations"
  | .materializationCapabilities => "materialization_capabilities"

/-- The tables that `connect` counts. -/
def tableNames : List TableName :=
  [.schemaMeta, .investigations, .artifacts, .analysisRuns, .entities, .relations,
    .sourceLocations, .materializations, .materializationCapabilities]

theorem mem_tableNames (t : TableName) : t ∈ tableNames := by
  cases t <;> decide

/-- `Cell`. -/
inductive Cell where
  | null
  | integer (n : Int)
  | text (s : String)
  deriving DecidableEq, Repr

def Cell.asString : Cell → String
  | .null => ""
  | .integer n => toString n
  | .text s => s

/-- A row, with the names of its columns. -/
abbrev Row := List (String × Cell)

namespace Row

def get (r : Row) (column : String) : Cell :=
  ((r.find? fun c => c.1 = column).map (·.2)).getD .null

def set (r : Row) (column : String) (cell : Cell) : Row :=
  r.map fun c => if c.1 = column then (column, cell) else c

/-- The column `id` of an investigation. -/
def id (r : Row) : String := (r.get "id").asString

end Row

/-- **The content of a database**: each table of the schema is missing, or has rows. -/
abbrev Content := TableName → Option (List Row)

def Content.set (c : Content) (t : TableName) (rows : List Row) : Content :=
  fun u => if u = t then some rows else c u

theorem Content.set_self (c : Content) (t : TableName) (rows : List Row) :
    c.set t rows t = some rows := if_pos rfl

theorem Content.set_other (c : Content) {t u : TableName} (h : u ≠ t) (rows : List Row) :
    c.set t rows u = c u := if_neg h

/-- The value of `schema_version`. -/
def Content.version (c : Content) : Option String :=
  (c .schemaMeta).bind fun rows =>
    (rows.find? fun r => r.get "key" = .text "schema_version").map fun r =>
      (r.get "value").asString

/-! ## 2. Statements -/

/-- Statements over a content; one that fails throws. -/
abbrev Sql := StateT Content (Except Thrown)

section Bind

variable {α β : Type} {x : Sql α} {f : α → Sql β} {c c' : Content}

theorem bind_ok {a : α} (h : x c = .ok (a, c')) : (x >>= f) c = f a c' := by
  show (x c).bind _ = _
  rw [h]
  rfl

theorem bind_error {e : Thrown} (h : x c = .error e) : (x >>= f) c = .error e := by
  show (x c).bind _ = _
  rw [h]
  rfl

end Bind

/-- The rows of a table; `thrown` is what the caller makes of SQLite's message. -/
def rowsOf (thrown : String → Thrown) (t : TableName) : Sql (List Row) := fun c =>
  match c t with
  | some rows => .ok (rows, c)
  | none => .error (thrown ("no such table: " ++ t.text))

def putRows (t : TableName) (rows : List Row) : Sql Unit := fun c => .ok ((), c.set t rows)

/-- `CREATE TABLE` through `db.exec`. -/
def create (t : TableName) : Sql Unit := fun c =>
  match c t with
  | some _ => .error (.std ("table " ++ t.text ++ " already exists"))
  | none => .ok ((), c.set t [])

def createAll : List TableName → Sql Unit
  | [] => pure ()
  | t :: ts => do
    create t
    createAll ts

/-- `UPDATE` through `db.exec`, over every row. -/
def update (t : TableName) (f : Row → Row) : Sql Unit := do
  let rows ← rowsOf .std t
  putRows t (rows.map f)

/-- `ALTER TABLE … ADD COLUMN`. -/
def addColumn (t : TableName) (column : String) (default : Cell) : Sql Unit :=
  update t (· ++ [(column, default)])

/-- `INSERT INTO`, into a table that has no rows yet. -/
def insert (t : TableName) (row : Row) : Sql Unit := do
  let rows ← rowsOf sqliteError t
  putRows t (rows ++ [row])

/-! ### The migrations -/

/-- The tables of the first migration. -/
def firstTables : List TableName :=
  [.schemaMeta, .investigations, .artifacts, .analysisRuns, .entities, .relations,
    .sourceLocations, .materializations]

/-- `kMigration1`; the indexes go with their tables. -/
def kMigration1 : Sql Unit := createAll firstTables

/-- `kMigration2`. -/
def kMigration2 : Sql Unit := do
  addColumn .artifacts "catalog_status" (.text "stored")
  addColumn .artifacts "catalog_run_id" .null
  addColumn .artifacts "catalog_error_json" .null
  addColumn .artifacts "catalog_claim_owner" .null
  addColumn .artifacts "catalog_claim_started_at" .null
  addColumn .artifacts "requested_index_level" (.text "catalog")
  addColumn .artifacts "completed_index_level" (.text "none")
  addColumn .artifacts "analysis_schema_version" (.integer 2)
  addColumn .materializations "claim_owner" .null
  addColumn .materializations "claim_started_at" .null
  addColumn .materializations "adapter_id" .null
  addColumn .materializations "adapter_version" .null
  addColumn .materializations "analysis_schema_version" .null
  create .materializationCapabilities
  let entities ← rowsOf .std .entities
  update .artifacts fun row =>
    let ready := entities.any fun e =>
      e.get "artifact_id" = row.get "id" && e.get "kind" = .text "function"
    row.set "catalog_status" (.text (if ready then "catalog_ready" else "stored"))
  update .artifacts fun row =>
    let ready := row.get "catalog_status" = .text "catalog_ready"
    row.set "completed_index_level" (.text (if ready then "catalog" else "none"))
  update .materializations fun row =>
    if row.get "status" = .text "structure_ready" then
      ((row.set "adapter_id" (.text "llvm-ir")).set "adapter_version" (.text "1")).set
        "analysis_schema_version" (.integer 2)
    else row
  update .schemaMeta fun row =>
    if row.get "key" = .text "schema_version" then row.set "value" (.text "2") else row

/-- The branch of `initialize` without a schema. -/
def migrations : Sql Unit := do
  kMigration1
  insert .schemaMeta [("key", .text "schema_version"), ("value", .text "1")]
  kMigration2

/-! ## 3. The entries -/

/-- The orders in which SQLite hands out the rows of a table, for `SELECT id` and for `SELECT *`:
    neither statement asks for one. -/
structure Orders where
  byId : List Row → List Row
  byRow : List Row → List Row
  byId_perm : ∀ rows, (byId rows).Perm rows
  byRow_perm : ∀ rows, (byRow rows).Perm rows

/-- The name a call is given, and what it draws. -/
structure Call where
  name : String
  uuid : String
  now : String
  deriving DecidableEq, Repr

def Call.id (call : Call) : String := "investigation:" ++ call.uuid

def Call.row (call : Call) : Row :=
  [("id", .text call.id), ("name", .text call.name), ("created_at", .text call.now),
    ("metadata_json", .text "\x7b\x7d")]

def kSchemaVersion : Int := 2

/-- `std::stoi`. -/
def stoi (text : String) : Option Int :=
  (Cli.stoll text.toList).filter fun n => -2147483648 ≤ n && n < 2147483648

/-- `SELECT value FROM schema_meta WHERE key='schema_version'`. -/
def selectVersion : Sql (Option String) := do
  let rows ← rowsOf sqliteError .schemaMeta
  return (rows.find? fun r => r.get "key" = .text "schema_version").map fun r =>
    (r.get "value").asString

/-- `SELECT id FROM investigations LIMIT 1`. -/
def selectId (S : Orders) : Sql (Option String) := do
  let rows ← rowsOf sqliteError .investigations
  return (S.byId rows).head?.map Row.id

/-- `IrezError(message, 5)`. -/
def refused (message : String) : Thrown := .irez ⟨message, 5, "state_error"⟩

def unsupportedVersion (version : String) : Thrown :=
  refused ("unsupported state schema version " ++ version ++ " (this binary requires " ++
    toString kSchemaVersion ++ "); create a new state and reindex the original artifacts")

def checkVersion : Sql Unit := do
  match ← selectVersion with
  | none => throw (refused "state database has no schema version")
  | some text =>
    match stoi text with
    | none => throw (refused "state database has an invalid schema version")
    | some version =>
      if version ≠ kSchemaVersion then throw (unsupportedVersion (toString version))

/-- The tables are made where `schema_meta` is missing. -/
def makeSchema : Sql Unit := do
  let c ← get
  if (c .schemaMeta).isNone then migrations

/-- The investigation that is there, or a new one. -/
def currentInvestigation (S : Orders) (call : Call) : Sql String := do
  match ← selectId S with
  | some id => return id
  | none =>
    insert .investigations call.row
    return call.id

/-- The body of `Store::initialize`, from the start of its transaction. -/
def initializeBody (S : Orders) (call : Call) : Sql String := do
  makeSchema
  checkVersion
  currentInvestigation S call

/-- `SQLite::Transaction`: what its body has done is undone where the body throws. -/
def transaction {α : Type} (body : Sql α) (c : Content) : Except Thrown α × Content :=
  match body c with
  | .ok (a, c') => (.ok a, c')
  | .error e => (.error e, c)

/-- **`Store::initialize`.** -/
def initializeStore (S : Orders) (call : Call) (c : Content) : Except Thrown String × Content :=
  transaction (initializeBody S call) c

/-- **`Store::connect`**, as every other command calls it. -/
def connect : Sql Unit := do
  match ← selectVersion with
  | none => throw (refused "state is not initialized; run `irez init`")
  | some text =>
    if text ≠ toString kSchemaVersion then throw (unsupportedVersion text)
    let c ← get
    if (tableNames.filter fun t => (c t).isSome).length ≠ 9 then
      throw (refused "state schema is incomplete or corrupt")

/-- `Store::investigation`: `SELECT * FROM investigations LIMIT 1`. -/
def investigation (S : Orders) : Sql (Option Row) := do
  let rows ← rowsOf sqliteError .investigations
  return (S.byRow rows).head?

/-! ## 4. What the statements do -/

theorem rowsOf_some {thrown : String → Thrown} {t : TableName} {c : Content} {rows : List Row}
    (h : c t = some rows) : rowsOf thrown t c = .ok (rows, c) := by
  unfold rowsOf
  rw [h]

theorem rowsOf_none {thrown : String → Thrown} {t : TableName} {c : Content} (h : c t = none) :
    rowsOf thrown t c = .error (thrown ("no such table: " ++ t.text)) := by
  unfold rowsOf
  rw [h]

theorem insert_some {t : TableName} {row : Row} {c : Content} {rows : List Row}
    (h : c t = some rows) : insert t row c = .ok ((), c.set t (rows ++ [row])) :=
  bind_ok (rowsOf_some h)

theorem create_none {t : TableName} {c : Content} (h : c t = none) :
    create t c = .ok ((), c.set t []) := by
  unfold create
  rw [h]

theorem create_some {t : TableName} {c : Content} (h : (c t).isSome = true) :
    create t c = .error (.std ("table " ++ t.text ++ " already exists")) := by
  obtain ⟨rows, hrows⟩ := Option.isSome_iff_exists.mp h
  unfold create
  rw [hrows]

/-- Tables that are missing are made. -/
theorem createAll_ok {ts : List TableName} {c : Content} (hn : ts.Nodup)
    (h : ∀ t ∈ ts, c t = none) :
    createAll ts c = .ok ((), fun t => if t ∈ ts then some [] else c t) := by
  induction ts generalizing c with
  | nil => rfl
  | cons t ts ih =>
    obtain ⟨ht, hn⟩ := List.nodup_cons.mp hn
    have hrest : ∀ u ∈ ts, c.set t [] u = none := by
      intro u hu
      have hne : u ≠ t := fun he => ht (he ▸ hu)
      rw [c.set_other hne]
      exact h u (List.mem_cons_of_mem t hu)
    refine (bind_ok (create_none (h t List.mem_cons_self))).trans ((ih hn hrest).trans ?_)
    congr 2
    funext u
    by_cases hu : u ∈ ts
    · simp [hu]
    · by_cases hut : u = t
      · simp [hut, ht, Content.set_self]
      · simp [hu, hut, c.set_other hut]

/-- A table that is there stops them. -/
theorem createAll_error {ts : List TableName} {c : Content} {t : TableName} (ht : t ∈ ts)
    (h : (c t).isSome = true) : ∃ e, createAll ts c = .error e := by
  induction ts generalizing c with
  | nil => cases ht
  | cons u ts ih =>
    cases hu : c u with
    | some rows => exact ⟨_, bind_error (create_some (by rw [hu]; rfl))⟩
    | none =>
      have hne : t ≠ u := by
        intro he
        subst he
        rw [hu] at h
        cases h
      have hstill : (c.set u [] t).isSome = true := by
        rw [c.set_other hne]
        exact h
      obtain ⟨e, he⟩ := ih ((List.mem_cons.mp ht).resolve_left hne) hstill
      exact ⟨e, (bind_ok (create_none hu)).trans he⟩

/-- A database as the migrations make it. -/
def started : Content
  | .schemaMeta => some [[("key", .text "schema_version"), ("value", .text "2")]]
  | _ => some []

/-- **An empty database gets every table.** -/
theorem migrations_empty : migrations (fun _ => none) = .ok ((), started) := by
  have h : ∃ c, migrations (fun _ => none) = .ok ((), c) ∧ c = started := by
    refine ⟨_, rfl, ?_⟩
    funext t
    cases t <;> rfl
  obtain ⟨c, hc, rfl⟩ := h
  exact hc

/-- A table that is there without `schema_meta` stops the migrations. -/
theorem migrations_error {c : Content} {t : TableName} (h : (c t).isSome = true) :
    ∃ e, migrations c = .error e := by
  by_cases hfirst : ∃ u ∈ firstTables, (c u).isSome = true
  · obtain ⟨u, hu, hsome⟩ := hfirst
    obtain ⟨e, he⟩ := createAll_error hu hsome
    exact ⟨e, bind_error he⟩
  · have hnone : ∀ u ∈ firstTables, c u = none := by
      intro u hu
      cases hcu : c u with
      | none => rfl
      | some rows => exact absurd ⟨u, hu, by rw [hcu]; rfl⟩ hfirst
    -- the one that is there is the table of the second migration
    have ht : t = .materializationCapabilities := by
      by_contra hne
      have hin : t ∈ firstTables := by
        cases t <;> first | decide | exact absurd rfl hne
      rw [hnone t hin] at h
      cases h
    subst ht
    obtain ⟨rows, hrows⟩ := Option.isSome_iff_exists.mp h
    let made : Content := fun t => if t = .materializationCapabilities then some rows else some []
    have hmade : kMigration1 c = .ok ((), made) := by
      refine (createAll_ok (by decide) hnone).trans ?_
      congr 2
      funext u
      cases u <;> first | exact hrows | rfl
    exact ⟨_, (bind_ok hmade).trans rfl⟩

/-! ## 5. What the entries check -/

theorem selectVersion_some {c : Content} (h : (c .schemaMeta).isSome = true) :
    selectVersion c = .ok (c.version, c) := by
  obtain ⟨rows, hrows⟩ := Option.isSome_iff_exists.mp h
  refine (bind_ok (rowsOf_some hrows)).trans ?_
  unfold Content.version
  rw [hrows]
  rfl

theorem selectVersion_none {c : Content} (h : (c .schemaMeta).isSome = false) :
    ∃ e, selectVersion c = .error e :=
  ⟨_, bind_error (rowsOf_none (Option.not_isSome_iff_eq_none.mp (by rw [h]; decide)))⟩

theorem Content.isSome_of_version {c : Content} {text : String} (h : c.version = some text) :
    (c .schemaMeta).isSome = true := by
  obtain ⟨rows, hrows, _⟩ := Option.bind_eq_some_iff.mp h
  rw [hrows]
  rfl

theorem checkVersion_of {c : Content} {text : String} (h : c.version = some text) :
    checkVersion c = match stoi text with
      | none => .error (refused "state database has an invalid schema version")
      | some version =>
        if version ≠ kSchemaVersion then .error (unsupportedVersion (toString version))
        else .ok ((), c) := by
  refine (bind_ok (selectVersion_some (c.isSome_of_version h))).trans ?_
  rw [h]
  cases hn : stoi text with
  | none =>
    simp only [hn]
    rfl
  | some version =>
    simp only [hn]
    by_cases hv : version ≠ kSchemaVersion
    · rw [if_pos hv, if_pos hv]
      rfl
    · rw [if_neg hv, if_neg hv]
      rfl

/-- The number at the front of the version text is the one that is supported. -/
theorem checkVersion_ok {c : Content} {text : String} (h : c.version = some text)
    (hn : stoi text = some kSchemaVersion) : checkVersion c = .ok ((), c) := by
  rw [checkVersion_of h, hn]
  exact if_neg fun hne => hne rfl

theorem checkVersion_error {c : Content}
    (h : ∀ text, c.version = some text → stoi text ≠ some kSchemaVersion) :
    ∃ e, checkVersion c = .error e := by
  cases hmeta : (c .schemaMeta).isSome with
  | false =>
    obtain ⟨e, he⟩ := selectVersion_none hmeta
    exact ⟨e, bind_error he⟩
  | true =>
    cases hversion : c.version with
    | none =>
      have hselect := selectVersion_some hmeta
      rw [hversion] at hselect
      exact ⟨_, (bind_ok hselect).trans rfl⟩
    | some text =>
      have hne := h text hversion
      rw [checkVersion_of hversion]
      cases hn : stoi text with
      | none => exact ⟨_, rfl⟩
      | some version =>
        have hv : version ≠ kSchemaVersion := fun he => hne (hn.trans (congrArg some he))
        exact ⟨_, if_pos hv⟩

theorem toString_kSchemaVersion : toString kSchemaVersion = "2" := by decide

theorem stoi_two : stoi "2" = some kSchemaVersion := by decide

theorem connect_of {c : Content} {text : String} (h : c.version = some text) :
    connect c =
      if text ≠ toString kSchemaVersion then .error (unsupportedVersion text)
      else if (tableNames.filter fun t => (c t).isSome).length ≠ 9 then
        .error (refused "state schema is incomplete or corrupt")
      else .ok ((), c) := by
  refine (bind_ok (selectVersion_some (c.isSome_of_version h))).trans ?_
  rw [h]
  by_cases ht : text ≠ toString kSchemaVersion
  · rw [if_pos ht]
    simp only [if_pos ht]
    rfl
  · rw [if_neg ht]
    simp only [if_neg ht]
    by_cases hc : (tableNames.filter fun t => (c t).isSome).length ≠ 9
    · rw [if_pos hc]
      exact (bind_ok (c := c) rfl).trans (by rw [if_pos hc]; rfl)
    · rw [if_neg hc]
      exact (bind_ok (c := c) rfl).trans (by rw [if_neg hc]; rfl)

theorem every_table_iff {c : Content} :
    (tableNames.filter fun t => (c t).isSome).length = 9 ↔ ∀ t, (c t).isSome = true := by
  have hlength : tableNames.length = 9 := rfl
  rw [← hlength, List.length_filter_eq_length_iff]
  exact ⟨fun h t => h t (mem_tableNames t), fun h t _ => h t⟩

/-- **What `connect` accepts**: the version text as it is written, and every table. -/
theorem connect_iff {c : Content} :
    connect c = .ok ((), c) ↔ c.version = some "2" ∧ ∀ t, (c t).isSome = true := by
  constructor
  · intro h
    cases hmeta : (c .schemaMeta).isSome with
    | false =>
      obtain ⟨e, he⟩ := selectVersion_none hmeta
      have herror : connect c = .error e := bind_error he
      rw [herror] at h
      cases h
    | true =>
      cases hversion : c.version with
      | none =>
        have hselect := selectVersion_some hmeta
        rw [hversion] at hselect
        rw [show connect c = _ from bind_ok hselect] at h
        cases h
      | some text =>
        rw [connect_of hversion] at h
        split at h
        · cases h
        · rename_i ht
          split at h
          · cases h
          · rename_i hc
            rw [toString_kSchemaVersion] at ht
            exact ⟨congrArg some (not_not.mp ht), every_table_iff.mp (not_not.mp hc)⟩
  · intro ⟨hversion, hall⟩
    rw [connect_of hversion, toString_kSchemaVersion, if_neg fun h => h rfl,
      if_neg fun h => h (every_table_iff.mpr hall)]

/-! ## 6. What `initialize` does -/

/-- **What `initialize` lets pass** of a database with a schema: a version text that begins with
    the number 2, and a table of investigations. -/
def Passes (c : Content) : Prop :=
  (∃ text, c.version = some text ∧ stoi text = some kSchemaVersion) ∧
    (c .investigations).isSome = true

theorem selectId_some {S : Orders} {c : Content} {rows : List Row}
    (h : c .investigations = some rows) :
    selectId S c = .ok ((S.byId rows).head?.map Row.id, c) := bind_ok (rowsOf_some h)

theorem investigation_some {S : Orders} {c : Content} {rows : List Row}
    (h : c .investigations = some rows) :
    investigation S c = .ok ((S.byRow rows).head?, c) := bind_ok (rowsOf_some h)

theorem makeSchema_some {c : Content} (h : (c .schemaMeta).isSome = true) :
    makeSchema c = .ok ((), c) := by
  have hnone : (c .schemaMeta).isNone = false := Option.isNone_eq_false_iff.mpr h
  refine (bind_ok (c := c) rfl).trans ?_
  rw [hnone]
  rfl

theorem makeSchema_none {c : Content} (h : c .schemaMeta = none) : makeSchema c = migrations c := by
  refine (bind_ok (c := c) rfl).trans ?_
  rw [h]
  rfl

theorem currentInvestigation_some {S : Orders} {call : Call} {c : Content} {rows : List Row}
    {row : Row} (h : c .investigations = some rows) (hr : (S.byId rows).head? = some row) :
    currentInvestigation S call c = .ok (row.id, c) := by
  refine (bind_ok (selectId_some h)).trans ?_
  rw [hr]
  rfl

theorem currentInvestigation_empty {S : Orders} {call : Call} {c : Content}
    (h : c .investigations = some []) :
    currentInvestigation S call c = .ok (call.id, c.set .investigations [call.row]) := by
  have hnil : S.byId [] = [] := List.perm_nil.mp (S.byId_perm [])
  refine (bind_ok (selectId_some h)).trans ?_
  rw [hnil]
  exact bind_ok (insert_some h)

theorem currentInvestigation_none (S : Orders) (call : Call) {c : Content}
    (h : c .investigations = none) : ∃ e, currentInvestigation S call c = .error e :=
  ⟨_, bind_error (bind_error (rowsOf_none h))⟩

/-- A version that is supported: `initialize` goes on to the investigations. -/
theorem initializeBody_version (S : Orders) (call : Call) {c : Content} {text : String}
    (h : c.version = some text) (hn : stoi text = some kSchemaVersion) :
    initializeBody S call c = currentInvestigation S call c :=
  (bind_ok (makeSchema_some (c.isSome_of_version h))).trans (bind_ok (checkVersion_ok h hn))

theorem initializeBody_passes (S : Orders) (call : Call) {c : Content} (h : Passes c) :
    initializeBody S call c = currentInvestigation S call c := by
  obtain ⟨⟨text, hversion, hn⟩, _⟩ := h
  exact initializeBody_version S call hversion hn

/-- **An empty database** is made. -/
theorem initializeBody_empty {S : Orders} {call : Call} {c : Content} (h : ∀ t, c t = none) :
    initializeBody S call c = currentInvestigation S call started := by
  obtain rfl : c = fun _ => none := funext h
  refine (bind_ok ((makeSchema_none rfl).trans migrations_empty)).trans ?_
  have hversion : started.version = some "2" := rfl
  exact bind_ok (checkVersion_ok hversion stoi_two)

/-- **Every other database is refused.** -/
theorem initializeBody_error (S : Orders) (call : Call) {c : Content} (hp : ¬ Passes c)
    {t : TableName} (ht : (c t).isSome = true) : ∃ e, initializeBody S call c = .error e := by
  cases hmeta : c .schemaMeta with
  | none =>
    obtain ⟨e, he⟩ := migrations_error ht
    exact ⟨e, bind_error ((makeSchema_none hmeta).trans he)⟩
  | some rows =>
    by_cases hversion : ∃ text, c.version = some text ∧ stoi text = some kSchemaVersion
    · -- the version passes: there is no table of investigations
      have hnone : c .investigations = none := by
        cases hi : c .investigations with
        | none => rfl
        | some rows => exact absurd ⟨hversion, by rw [hi]; rfl⟩ hp
      obtain ⟨text, htext, hn⟩ := hversion
      obtain ⟨e, he⟩ := currentInvestigation_none S call hnone
      exact ⟨e, (initializeBody_version S call htext hn).trans he⟩
    · obtain ⟨e, he⟩ := checkVersion_error fun text htext hn => hversion ⟨text, htext, hn⟩
      have hmake : makeSchema c = .ok ((), c) := makeSchema_some (by rw [hmeta]; rfl)
      exact ⟨e, (bind_ok hmake).trans (bind_error he)⟩

/-! ## 7. Where the entries agree -/

/-- Two investigations with different names are not both there. -/
def OneId (c : Content) : Prop :=
  ∀ rows, c .investigations = some rows → ∀ r ∈ rows, ∀ r' ∈ rows, Row.id r = Row.id r'

/-- **What both entries accept**: the version text "2", every table, and one investigation. -/
structure Ready (c : Content) : Prop where
  version : c.version = some "2"
  tables : ∀ t, (c t).isSome = true
  oneId : OneId c

/-- **The entries agree on a database**, with a call of `initialize`: where it returns a name,
    `connect` succeeds, the investigation has this name, and every further call returns it and
    changes nothing; where it throws, it has changed nothing. -/
def Agrees (S : Orders) (call : Call) (c : Content) : Prop :=
  match initializeStore S call c with
  | (.ok id, c') =>
    connect c' = .ok ((), c') ∧
      (∃ row, investigation S c' = .ok (some row, c') ∧ row.id = id) ∧
      ∀ call', initializeStore S call' c' = (.ok id, c')
  | (.error _, c') => c' = c

theorem transaction_ok {α : Type} {body : Sql α} {c c' : Content} {a : α}
    (h : body c = .ok (a, c')) : transaction body c = (.ok a, c') := by
  unfold transaction
  rw [h]

theorem transaction_error {α : Type} {body : Sql α} {c : Content} {e : Thrown}
    (h : body c = .error e) : transaction body c = (.error e, c) := by
  unfold transaction
  rw [h]

theorem Ready.passes {c : Content} (h : Ready c) : Passes c :=
  ⟨⟨"2", h.version, stoi_two⟩, h.tables .investigations⟩

/-- The first of rows in some order is one of them. -/
theorem head_of_perm {rows sorted : List Row} (h : sorted.Perm rows) (hne : rows ≠ []) :
    ∃ row ∈ rows, sorted.head? = some row := by
  cases hs : sorted with
  | nil =>
    rw [hs] at h
    exact absurd h.symm.eq_nil hne
  | cons row rest =>
    rw [hs] at h
    exact ⟨row, h.subset List.mem_cons_self, rfl⟩

/-- **A database with an investigation is settled**: every call of `initialize` returns its name
    and leaves the database as it is, and the other commands find the same name. -/
theorem Ready.settled {c : Content} (h : Ready c) {rows : List Row}
    (hrows : c .investigations = some rows) {row : Row} (hrow : row ∈ rows) (S : Orders) :
    connect c = .ok ((), c) ∧
      (∃ row', investigation S c = .ok (some row', c) ∧ row'.id = row.id) ∧
      ∀ call, initializeStore S call c = (.ok row.id, c) := by
  have hne : rows ≠ [] := List.ne_nil_of_mem hrow
  refine ⟨connect_iff.mpr ⟨h.version, h.tables⟩, ?_, fun call => ?_⟩
  · obtain ⟨row', hrow', hhead⟩ := head_of_perm (S.byRow_perm rows) hne
    refine ⟨row', ?_, h.oneId rows hrows row' hrow' row hrow⟩
    rw [investigation_some hrows, hhead]
  · obtain ⟨row', hrow', hhead⟩ := head_of_perm (S.byId_perm rows) hne
    have hbody : initializeBody S call c = .ok (row'.id, c) := by
      rw [initializeBody_passes S call h.passes, currentInvestigation_some hrows hhead]
    rw [h.oneId rows hrows row hrow row' hrow']
    exact transaction_ok hbody

/-- A new investigation in an empty table settles the database. -/
theorem Ready.filed {c : Content} (h : Ready c) (row : Row) :
    Ready (c.set .investigations [row]) where
  version := h.version
  tables t := by
    by_cases ht : t = .investigations
    · rw [ht, Content.set_self]
      rfl
    · rw [c.set_other ht]
      exact h.tables t
  oneId := by
    intro rows hrows r hr r' hr'
    rw [Content.set_self] at hrows
    obtain rfl := Option.some.inj hrows
    rw [List.mem_singleton.mp hr, List.mem_singleton.mp hr']

theorem Call.row_id (call : Call) : call.row.id = call.id := rfl

/-- What `initialize` makes of a settled database, or of one without investigations. -/
theorem agrees_of_current {S : Orders} {call : Call} {c c₀ : Content} (h : Ready c)
    (hbody : initializeBody S call c₀ = currentInvestigation S call c) : Agrees S call c₀ := by
  obtain ⟨rows, hrows⟩ := Option.isSome_iff_exists.mp (h.tables .investigations)
  cases rows with
  | nil =>
    have hrun : initializeStore S call c₀ = (.ok call.id, c.set .investigations [call.row]) :=
      transaction_ok (hbody.trans (currentInvestigation_empty hrows))
    unfold Agrees
    rw [hrun, ← call.row_id]
    exact (h.filed call.row).settled (Content.set_self ..) List.mem_cons_self S
  | cons first rest =>
    obtain ⟨row, hrow, hhead⟩ := head_of_perm (S.byId_perm (first :: rest)) (List.cons_ne_nil _ _)
    have hrun : initializeStore S call c₀ = (.ok row.id, c) :=
      transaction_ok (hbody.trans (currentInvestigation_some hrows hhead))
    unfold Agrees
    rw [hrun]
    exact h.settled hrows hrow S

theorem started_ready : Ready started where
  version := rfl
  tables t := by cases t <;> rfl
  oneId := by
    intro rows hrows r hr
    obtain rfl : rows = [] := (Option.some.inj hrows).symm
    cases hr

/-- A row is moved to the front. -/
def toFront (row : Row) (rows : List Row) : List Row :=
  if row ∈ rows then row :: rows.erase row else rows

theorem toFront_perm (row : Row) (rows : List Row) : (toFront row rows).Perm rows := by
  unfold toFront
  split
  · rename_i h
    exact (List.perm_cons_erase h).symm
  · exact .refl rows

/-- Orders that begin with the rows given. -/
def Orders.starting (row row' : Row) : Orders where
  byId := toFront row
  byRow := toFront row'
  byId_perm := toFront_perm row
  byRow_perm := toFront_perm row'

/-- What a call leaves of a content that passes is connected to, where the entries agree. -/
theorem Agrees.connects {S : Orders} {call : Call} {c c' : Content} {id : String}
    (h : Agrees S call c) (hrun : initializeStore S call c = (.ok id, c'))
    (hversion : c'.version = c.version) (htables : ∀ t, (c' t).isSome = (c t).isSome) :
    c.version = some "2" ∧ ∀ t, (c t).isSome = true := by
  unfold Agrees at h
  rw [hrun] at h
  obtain ⟨hv, ht⟩ := connect_iff.mp h.1
  exact ⟨hversion ▸ hv, fun t => htables t ▸ ht t⟩

/-- **A content that passes must be ready**, for the entries to agree in every order. -/
theorem Agrees.ready {c : Content} (h : ∀ S call, Agrees S call c) (hp : Passes c) : Ready c := by
  obtain ⟨rows, hrows⟩ := Option.isSome_iff_exists.mp hp.2
  have hbody (S : Orders) (call : Call) := initializeBody_passes S call hp
  cases rows with
  | nil =>
    let call : Call := ⟨"", "", ""⟩
    let S := Orders.starting call.row call.row
    have hrun : initializeStore S call c = (.ok call.id, c.set .investigations [call.row]) :=
      transaction_ok ((hbody S call).trans (currentInvestigation_empty hrows))
    have htables (t : TableName) : (c.set .investigations [call.row] t).isSome = (c t).isSome := by
      by_cases ht : t = .investigations
      · rw [ht, Content.set_self, hrows]
        rfl
      · rw [c.set_other ht]
    obtain ⟨hversion, hall⟩ := (h S call).connects hrun rfl htables
    refine ⟨hversion, hall, fun rows' hrows' r hr => ?_⟩
    obtain rfl : [] = rows' := Option.some.inj (hrows.symm.trans hrows')
    cases hr
  | cons first rest =>
    -- `initialize` names the one row, and `investigation` hands out the other
    have hrun (r r' : Row) (hr : r ∈ first :: rest) (call : Call) :
        initializeStore (Orders.starting r r') call c = (.ok r.id, c) := by
      have hhead : ((Orders.starting r r').byId (first :: rest)).head? = some r := by
        show (toFront r (first :: rest)).head? = some r
        unfold toFront
        rw [if_pos hr]
        rfl
      exact transaction_ok ((hbody _ call).trans (currentInvestigation_some hrows hhead))
    have hfirst := hrun first first List.mem_cons_self ⟨"", "", ""⟩
    obtain ⟨hversion, hall⟩ := (h _ _).connects hfirst rfl fun _ => rfl
    refine ⟨hversion, hall, fun rows' hrows' r hr r' hr' => ?_⟩
    obtain rfl := Option.some.inj (hrows.symm.trans hrows')
    have hagrees := h (Orders.starting r r') ⟨"", "", ""⟩
    unfold Agrees at hagrees
    rw [hrun r r' hr] at hagrees
    obtain ⟨row, hrow, hid⟩ := hagrees.2.1
    rw [investigation_some hrows] at hrow
    have hhead : (toFront r' (first :: rest)).head? = some row :=
      congrArg Prod.fst (Except.ok.inj hrow)
    unfold toFront at hhead
    rw [if_pos hr'] at hhead
    obtain rfl := Option.some.inj hhead
    exact hid.symm

/-- **Where the entries agree**, whatever the order in which rows are handed out: a database that
    passes `initialize` must be one that both accept. -/
theorem agrees_iff (c : Content) : (∀ S call, Agrees S call c) ↔ (Passes c → Ready c) := by
  constructor
  · exact Agrees.ready
  · intro h S call
    by_cases hp : Passes c
    · exact agrees_of_current (h hp) (initializeBody_passes S call hp)
    · by_cases hempty : ∀ t, c t = none
      · exact agrees_of_current started_ready (initializeBody_empty hempty)
      · obtain ⟨t, ht⟩ := not_forall.mp hempty
        obtain ⟨e, he⟩ := initializeBody_error S call hp (Option.isSome_iff_ne_none.mpr ht)
        unfold Agrees initializeStore
        rw [transaction_error he]

/-- **Whatever the others accept, `initialize` accepts.** -/
theorem initializeStore_of_connect {c : Content} (h : connect c = .ok ((), c)) (S : Orders)
    (call : Call) : ∃ id c', initializeStore S call c = (.ok id, c') := by
  obtain ⟨hversion, htables⟩ := connect_iff.mp h
  have hbody := initializeBody_version S call hversion stoi_two
  obtain ⟨rows, hrows⟩ := Option.isSome_iff_exists.mp (htables .investigations)
  cases rows with
  | nil => exact ⟨_, _, transaction_ok (hbody.trans (currentInvestigation_empty hrows))⟩
  | cons first rest =>
    obtain ⟨row, _, hhead⟩ := head_of_perm (S.byId_perm (first :: rest)) (List.cons_ne_nil _ _)
    exact ⟨_, _, transaction_ok (hbody.trans (currentInvestigation_some hrows hhead))⟩

/-- The content after more calls. -/
def repeated (S : Orders) (calls : List Call) (c : Content) : Content :=
  calls.foldl (fun c call => (initializeStore S call c).2) c

/-- **However often `initialize` is called again**, it returns the name of the first call and the
    database stays as that call left it. -/
theorem Agrees.repeated {S : Orders} {call : Call} {c c' : Content} {id : String}
    (h : Agrees S call c) (hrun : initializeStore S call c = (.ok id, c')) (calls : List Call)
    (next : Call) :
    Initialize.repeated S calls c' = c' ∧
      initializeStore S next (Initialize.repeated S calls c') = (.ok id, c') := by
  unfold Agrees at h
  rw [hrun] at h
  have hagain := h.2.2
  have hsame : Initialize.repeated S calls c' = c' := by
    induction calls with
    | nil => rfl
    | cons call calls ih =>
      show Initialize.repeated S calls (initializeStore S call c').2 = c'
      rw [hagain call]
      exact ih
  rw [hsame]
  exact ⟨rfl, hagain next⟩

/-! ## 8. A version text between the two checks -/

namespace Future

/-- A database of a later version, "2.1". -/
def content : Content
  | .schemaMeta => some [[("key", .text "schema_version"), ("value", .text "2.1")]]
  | .investigations => some [[("id", .text "investigation:1"), ("name", .text "firmware"),
      ("created_at", .text "2026-01-01T00:00:00Z"), ("metadata_json", .text "\x7b\x7d")]]
  | _ => some []

def stored : Orders where
  byId rows := rows
  byRow rows := rows
  byId_perm := .refl
  byRow_perm := .refl

def call : Call := ⟨"again", "2", "2026-01-02T00:00:00Z"⟩

end Future

open Future in
/-- **`initialize` returns the investigation, and no other command opens the database.** -/
theorem version_between :
    (initializeStore stored call content).1 = .ok "investigation:1" ∧
      connect content = .error (unsupportedVersion "2.1") ∧
      ¬ ∀ c S call, Agrees S call c := by
  have hconnect : connect content = .error (unsupportedVersion "2.1") := rfl
  have hrun : initializeStore stored call content = (.ok "investigation:1", content) := rfl
  refine ⟨rfl, hconnect, fun h => ?_⟩
  have hagrees := h content stored call
  unfold Agrees at hagrees
  rw [hrun] at hagrees
  rw [hagrees.1] at hconnect
  cases hconnect

end Irez.Initialize
