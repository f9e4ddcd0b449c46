/-
  File:      Irez/Ingest.lean
  Subject:   The catalog phase of `Service::ingest` (service.cpp 269-426) and its full
             index loop (428-445): the claim on the artifact, the publish transaction of
             the catalog, its failure transaction.

  As in Materialize.lean each transaction is a definition of its own. The phase starts
  from the artifact's row as `ingest` reads it after `Store::ingest_file` (Store.lean).
-/
import Irez.Materialize

open Irez.Basis

namespace Irez

/-! ## 1. The claim -/

/-- `catalog_current`. -/
def Artifact.catalogCurrent (a : Artifact) : Bool :=
  a.catalogStatus = .catalogReady && a.adapterId.getD "" = kAdapterId &&
    a.adapterVersion.getD "" = kAdapterVersionString &&
    a.analysisSchemaVersion = kAnalysisSchemaVersion

/-- `SELECT changes()` after the claim: the rows the UPDATE meets. -/
def Tables.claimableArtifacts (t : Tables) (artifactId : String) (now : Time) : Nat :=
  (t.artifacts.filter fun a => a.id = artifactId && a.claimable now).length

def claimCatalog (io : Faults) (d : ClaimDraw) (artifact : Artifact) (index : IndexLevel)
    (db : Database) : Except Thrown Database :=
  match exec io (.claimCatalog d.owner d.claimedAt d.now index artifact.id) db with
  | .error e => .error e
  | .ok db₁ =>
    if db.claimableArtifacts artifact.id d.now ≠ 1 then
      .error (.irez (busy "artifact catalog is being refreshed by another process"))
    else
      match investigationId db₁.toTables with
      | .error e => .error e
      | .ok inv =>
        transaction io
          [.insertRun (runStart d inv artifact.id ["catalog", "--input", artifact.storedPath]),
            .setCatalogRun d.runId artifact.id] db₁

/-! ## 2. The failure transaction -/

def failCatalogStatements (artifactId run message : String) (endedAt : Time) : List Statement :=
  [.endRun run .failed endedAt (some (errorJson message)),
    .failArtifact (errorJson message) artifactId]

def failCatalog (io : Faults) (artifactId run message : String) (endedAt : Time)
    (db : Database) : Except Thrown Database :=
  transaction io (failCatalogStatements artifactId run message endedAt) db

/-! ## 3. The publish transaction -/

namespace FunctionRecord

variable (artifact : Artifact) (f : FunctionRecord)

def handle : String := entityId artifact (functionLocal f.key)

def attributes : Attributes :=
  [("declaration", .bool f.declaration), ("linkage", .str f.linkage),
    ("body_fingerprint", .str f.bodyFingerprint)]

/-- The row of `entities` a catalog entry upserts. -/
def entityRow : Entity :=
  { id := f.handle artifact, artifactId := artifact.id, functionId := none, blockId := none,
    kind := "function", localKey := functionLocal f.key, ordinal := some f.ordinal,
    name := some f.name, opcode := none, llvmType := some f.signature,
    materialization := .catalogOnly, exactText := none, attributes := f.attributes }

/-- The row of `materializations` a catalog entry upserts. -/
def materializationRow : Materialization :=
  { artifactId := artifact.id, functionId := f.handle artifact,
    status := if f.declaration then .declarationOnly else .catalogOnly, analysisRunId := none,
    bodyFingerprint := some f.bodyFingerprint, errorJson := none, claimOwner := none,
    claimStartedAt := none, adapterId := none, adapterVersion := none,
    analysisSchemaVersion := none }

def statements : List Statement :=
  [.upsertFunction (f.entityRow artifact), .upsertMaterialization (f.materializationRow artifact),
    .markEntity (if f.declaration then .declarationOnly else .catalogOnly) (f.handle artifact)]

end FunctionRecord

def publishCatalogStatements (artifact : Artifact) (run : String) (module : ModuleRecord)
    (records : List Record) (endedAt : Time) : List Statement :=
  [.publishArtifact module ((capabilitiesRecord records).getD []) artifact.id] ++
    (functionRecords records).flatMap (·.statements artifact) ++
    [.endRun run .success endedAt none]

def publishCatalog (io : Faults) (artifact : Artifact) (run : String) (module : ModuleRecord)
    (records : List Record) (endedAt : Time) (db : Database) : Except Thrown Database :=
  transaction io (publishCatalogStatements artifact run module records endedAt) db

/-! ## 4. The phase -/

structure CatalogDraw where
  claim : ClaimDraw
  endedAt : Time
  failedAt : Time

/-- What the adapter call comes to: the module record and the records, or the exception to
    fail with. -/
def acceptCatalog (outcome : Outcome) : Except Thrown (ModuleRecord × List Record) :=
  match accept outcome with
  | .error e => .error e
  | .ok records =>
    match moduleRecord records with
    | none => .error (.irez (adapterFailure "adapter emitted no module record"))
    | some m => .ok (m, records)

def failCatalogWith (io : Faults) (artifactId : String) (d : CatalogDraw) (e : Thrown)
    (db : Database) : Database × Except Thrown Unit :=
  match failCatalog io artifactId d.claim.runId e.what d.failedAt db with
  | .ok db' => (db', .error e)
  | .error e' => (db, .error e')

/-- Everything from the claim's commit to the end of the catalog transaction. -/
def finishCatalog (env : Environment) (artifact : Artifact) (d : CatalogDraw) (outcome : Outcome)
    (db : Database) : Database × Except Thrown Unit :=
  match acceptCatalog outcome with
  | .error e => failCatalogWith env.failure artifact.id d e db
  | .ok (module, records) =>
    match investigationId db.toTables with
    | .error e => (db, .error e)
    | .ok _ =>
      match publishCatalog env.publish artifact d.claim.runId module records d.endedAt db with
      | .error e => failCatalogWith env.failure artifact.id d e db
      | .ok db' => (db', .ok ())

/-- The catalog phase of a refreshing `ingest`; `graph` is `adapter::catalog` on the file
    system. -/
def refreshCatalog (env : Environment) (graph : String → Outcome) (d : CatalogDraw)
    (artifact : Artifact) (index : IndexLevel) (db : Database) : Database × Except Thrown Unit :=
  match claimCatalog env.claim d.claim artifact index db with
  | .error e => (db, .error e)
  | .ok db₁ => finishCatalog env artifact d (graph artifact.storedPath) db₁

/-! ## 5. The full index -/

/-- `object->getBoolean("declaration").value_or(false)`. -/
def Entity.declared (e : Entity) : Bool :=
  e.attributes.lookup "declaration" = some (.bool true)

/-- The functions of the artifact that are not declarations, in the order of their rows. -/
def Tables.definedFunctions (t : Tables) (artifactId : String) : List String :=
  (t.entities.filter fun e => e.artifactId = artifactId && e.kind = "function" && !e.declared).map
    (·.id)

/-- `for (handle : handles) materialize(handle)`: the first exception ends the loop. -/
def materializeAll (env : Environment) (graph : String → String → Outcome)
    (draw : String → MaterializeDraw) : List String → Database → Database × Except Thrown Unit
  | [], db => (db, .ok ())
  | handle :: rest, db =>
    match materialize env graph (draw handle) handle false db with
    | (db₁, .error e) => (db₁, .error e)
    | (db₁, .ok _) => materializeAll env graph draw rest db₁

structure IngestDraw where
  catalog : CatalogDraw
  materialize : String → MaterializeDraw

/-- What `ingest` answers with. -/
structure Ingested where
  target : String
  deduplicated : Bool
  index : IndexLevel
  functionCount : Nat
  refreshed : Bool
  capabilities : List CapabilityEntry
  deriving DecidableEq, Repr

/-- Everything of `ingest` after the artifact is stored. -/
def indexArtifact (env : Environment) (adapter : Adapter) (d : IngestDraw) (artifact : Artifact)
    (created : Bool) (index : IndexLevel) (refresh : Bool) (db : Database) :
    Database × Except Thrown Ingested :=
  match (if index = .full then exec env.claim (.requestFull artifact.id) db else .ok db) with
  | .error e => (db, .error e)
  | .ok db₁ =>
    let catalogRefresh := created || refresh || !artifact.catalogCurrent
    match (if catalogRefresh then
        refreshCatalog env adapter.catalog d.catalog artifact index db₁ else (db₁, .ok ())) with
    | (db₂, .error e) => (db₂, .error e)
    | (db₂, .ok _) =>
      match investigationId db₂.toTables with
      | .error e => (db₂, .error e)
      | .ok _ =>
        match (if index = .full then
            materializeAll env adapter.functionGraph d.materialize
              (db₂.definedFunctions artifact.id) db₂ else (db₂, .ok ())) with
        | (db₃, .error e) => (db₃, .error e)
        | (db₃, .ok _) =>
          match (if index = .full then exec env.claim (.completeFull artifact.id) db₃
            else .ok db₃) with
          | .error e => (db₃, .error e)
          | .ok db₄ =>
            (db₄, .ok {
              target := artifact.id
              deduplicated := !created
              index := index
              functionCount := (db₄.entities.filter fun e =>
                e.artifactId = artifact.id && e.kind = "function").length
              refreshed := catalogRefresh
              capabilities := ((db₄.artifact artifact.id).map (·.metadata.capabilities)).getD [] })

/-! ## 6. What the transactions leave -/

/-- **A committed catalog claim**: one claimable row is claimed for a new running run, and
    nothing else changes. -/
theorem claimCatalog_ok {io : Faults} {d : ClaimDraw} {artifact : Artifact} {index : IndexLevel}
    {db db₁ : Database} (h : claimCatalog io d artifact index db = .ok db₁) :
    ∃ inv, investigationId db.toTables = .ok inv ∧
      db.claimableArtifacts artifact.id d.now = 1 ∧ d.runId ∉ db.runIds ∧
      db₁.toTables = { db.toTables with
        artifacts :=
          updateWhere (·.id = artifact.id) (fun a => { a with catalogRunId := some d.runId })
            (updateWhere (fun a => a.id = artifact.id && a.claimable d.now)
              (Artifact.claimed d.owner d.claimedAt index) db.artifacts)
        runs := db.runs ++ [runStart d inv artifact.id
          ["catalog", "--input", artifact.storedPath]] } := by
  unfold claimCatalog at h
  split at h
  · cases h
  · rename_i db' hexec
    have ht := exec_ok hexec
    split at h
    · cases h
    · rename_i hone
      have hone : db.claimableArtifacts artifact.id d.now = 1 := by omega
      split at h
      · cases h
      · rename_i inv hinv
        have htx := transaction_ok h
        rw [effects_cons, effects_cons, effects_nil, ht] at htx
        have hi : investigationId db.toTables = .ok inv := by
          have he : investigationId db'.toTables = investigationId db.toTables := by
            rw [ht]
            rfl
          rw [← he]
          exact hinv
        refine ⟨inv, hi, hone, ?_, htx⟩
        have hkey := db₁.constraints.runKey
        rw [htx] at hkey
        exact hkey.not_mem

/-- A committed catalog claim as its three statements. -/
theorem claimCatalog_effects {io : Faults} {d : ClaimDraw} {artifact : Artifact} {index : IndexLevel}
    {db db₁ : Database} (h : claimCatalog io d artifact index db = .ok db₁) :
    ∃ run : Run, run.id = d.runId ∧
      db₁.toTables = effects [.claimCatalog d.owner d.claimedAt d.now index artifact.id,
        .insertRun run, .setCatalogRun d.runId artifact.id] db.toTables := by
  obtain ⟨inv, _, _, _, ht⟩ := claimCatalog_ok h
  exact ⟨runStart d inv artifact.id ["catalog", "--input", artifact.storedPath], rfl, ht⟩

/-- What all statements of a catalog publish meet. -/
theorem forall_publishCatalogStatements {Q : Statement → Prop} {artifact : Artifact} {run : String}
    {module : ModuleRecord} {records : List Record} {endedAt : Time} :
    (∀ s ∈ publishCatalogStatements artifact run module records endedAt, Q s) ↔
      Q (.publishArtifact module ((capabilitiesRecord records).getD []) artifact.id) ∧
      (∀ f ∈ functionRecords records, Q (.upsertFunction (f.entityRow artifact)) ∧
        Q (.upsertMaterialization (f.materializationRow artifact)) ∧
        Q (.markEntity (if f.declaration then .declarationOnly else .catalogOnly)
          (f.handle artifact))) ∧
      Q (.endRun run .success endedAt none) := by
  unfold publishCatalogStatements FunctionRecord.statements
  simp only [List.forall_mem_append, List.forall_mem_flatMap, List.forall_mem_cons,
    List.not_mem_nil, false_implies, implies_true, and_true, and_assoc]

theorem forall_failCatalogStatements {Q : Statement → Prop} {artifactId run message : String}
    {endedAt : Time} : (∀ s ∈ failCatalogStatements artifactId run message endedAt, Q s) ↔
      Q (.endRun run .failed endedAt (some (errorJson message))) ∧
        Q (.failArtifact (errorJson message) artifactId) := by
  simp [failCatalogStatements]

theorem failCatalog_ok {io : Faults} {artifactId run message : String} {endedAt : Time}
    {db db' : Database} (h : failCatalog io artifactId run message endedAt db = .ok db') :
    db'.toTables = { db.toTables with
      runs := updateWhere (·.id = run)
        (Run.ended .failed endedAt (some (errorJson message))) db.runs
      artifacts := updateWhere (·.id = artifactId)
        (Artifact.failed (errorJson message)) db.artifacts } :=
  transaction_ok h

end Irez
