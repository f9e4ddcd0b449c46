/-
  File:      Irez/Schema.lean
  Subject:   The state database: the rows of schema.h (both migrations applied) and
             the constraints SQLite enforces on them.

  A row keeps the columns that some statement of the program reads or writes; the
  rowids of `relations` and `source_locations` are the positions in the table. A
  column that only ever holds a closed set of texts is an enumeration.

  `Database` carries its constraints (PRIMARY KEY, UNIQUE, NOT NULL, and the foreign
  keys that `PRAGMA foreign_keys = ON` enforces), so a database that breaks one
  cannot be built: a statement that would break one fails (Statement.lean).
-/
import Irez.Basis.Table
import Irez.Contract

open Irez.Basis

namespace Irez

/-! ## 1. Rows -/

/-- A moment of `now_iso8601`, in milliseconds: the resolution at which SQLite's
    `julianday` compares. -/
abbrev Time := Nat

/-- The age from which a claim is stale: `'-10 minutes'`. -/
def tenMinutes : Time := 600000

/-- `{"message": …}`, the object every `error_json` column holds. -/
structure ErrorJson where
  message : String
  deriving DecidableEq, Repr

structure Investigation where
  id : String
  name : String
  deriving DecidableEq, Repr

inductive CatalogStatus where
  | stored
  | cataloging
  | catalogReady
  | failed
  deriving DecidableEq, Repr

inductive IndexLevel where
  | none
  | catalog
  | full
  deriving DecidableEq, Repr

/-- `metadata_json`: `{}` until a catalog is published. -/
structure Metadata where
  module : Option ModuleRecord
  capabilities : List CapabilityEntry
  deriving DecidableEq, Repr

structure Artifact where
  id : String
  investigationId : String
  kind : String
  contentSha256 : String
  storedPath : String
  originalPath : String
  mediaType : String
  adapterId : Option String
  adapterVersion : Option String
  targetTriple : Option String
  dataLayout : Option String
  metadata : Metadata
  catalogStatus : CatalogStatus
  catalogRunId : Option String
  catalogErrorJson : Option ErrorJson
  catalogClaimOwner : Option String
  catalogClaimStartedAt : Option Time
  requestedIndexLevel : IndexLevel
  completedIndexLevel : IndexLevel
  analysisSchemaVersion : Int
  deriving DecidableEq, Repr

inductive RunStatus where
  | running
  | success
  | failed
  deriving DecidableEq, Repr

/-- A row of `analysis_runs`. -/
structure Run where
  id : String
  investigationId : String
  producer : String
  producerVersion : String
  invocation : List String
  inputArtifact : String
  startedAt : Time
  endedAt : Option Time
  status : RunStatus
  errorJson : Option ErrorJson
  deriving DecidableEq, Repr

/-- The `materialization` column of `entities`. -/
inductive EntityState where
  | catalogOnly
  | declarationOnly
  | structureReady
  deriving DecidableEq, Repr

structure Entity where
  id : String
  artifactId : String
  functionId : Option String
  blockId : Option String
  kind : String
  localKey : String
  ordinal : Option Int
  name : Option String
  opcode : Option String
  llvmType : Option String
  materialization : EntityState
  exactText : Option String
  attributes : Attributes
  deriving DecidableEq, Repr

structure Relation where
  artifactId : String
  functionId : Option String
  srcId : String
  dstId : String
  kind : String
  ordinal : Option Int
  analysisRunId : Option String
  modality : String
  precision : String
  attributes : Attributes
  deriving DecidableEq, Repr

structure SourceLocation where
  artifactId : String
  entityId : String
  file : String
  line : Option Int
  columnNo : Option Int
  discriminator : Option Int
  inlineDepth : Option Int
  scopeName : Option String
  analysisRunId : Option String
  deriving DecidableEq, Repr

/-- The `status` column of `materializations`. -/
inductive Status where
  | catalogOnly
  | declarationOnly
  | materializing
  | structureReady
  | failed
  deriving DecidableEq, Repr

structure Materialization where
  artifactId : String
  functionId : String
  status : Status
  analysisRunId : Option String
  bodyFingerprint : Option String
  errorJson : Option ErrorJson
  claimOwner : Option String
  claimStartedAt : Option Time
  adapterId : Option String
  adapterVersion : Option String
  analysisSchemaVersion : Option Int
  deriving DecidableEq, Repr

/-- A row of `materialization_capabilities`. -/
structure Capability where
  functionId : String
  capability : String
  status : String
  precision : Option String
  analyzer : String
  analyzerVersion : String
  analysisSchemaVersion : Int
  analysisRunId : String
  completedAt : Time
  deriving DecidableEq, Repr

/-! ## 2. Tables and constraints -/

structure Tables where
  investigations : List Investigation
  artifacts : List Artifact
  runs : List Run
  entities : List Entity
  relations : List Relation
  sourceLocations : List SourceLocation
  materializations : List Materialization
  capabilities : List Capability
  deriving DecidableEq, Repr

/-- A nullable foreign key. -/
def Refers (o : Option String) (ids : List String) : Prop := o.all (· ∈ ids) = true

instance (o : Option String) (ids : List String) : Decidable (Refers o ids) :=
  inferInstanceAs (Decidable (_ = true))

@[simp] theorem refers_none (ids : List String) : Refers none ids := rfl

@[simp] theorem refers_some {x : String} {ids : List String} : Refers (some x) ids ↔ x ∈ ids := by
  simp [Refers]

namespace Tables

def investigationIds (t : Tables) : List String := t.investigations.map (·.id)

def artifactIds (t : Tables) : List String := t.artifacts.map (·.id)

def runIds (t : Tables) : List String := t.runs.map (·.id)

def entityIds (t : Tables) : List String := t.entities.map (·.id)

/-- The constraints of the schema. -/
structure Constraints (t : Tables) : Prop where
  artifactKey : Keyed Artifact.id t.artifacts
  artifactContent : Keyed (fun a : Artifact => (a.investigationId, a.contentSha256)) t.artifacts
  runKey : Keyed Run.id t.runs
  entityKey : Keyed Entity.id t.entities
  entityLocal : Keyed (fun e : Entity => (e.artifactId, e.localKey)) t.entities
  materializationKey :
    Keyed (fun m : Materialization => (m.artifactId, m.functionId)) t.materializations
  capabilityKey : Keyed (fun c : Capability => (c.functionId, c.capability)) t.capabilities
  artifactRefs : ∀ a ∈ t.artifacts, a.investigationId ∈ t.investigationIds ∧
    Refers a.catalogRunId t.runIds
  runRefs : ∀ r ∈ t.runs, r.investigationId ∈ t.investigationIds
  entityRefs : ∀ e ∈ t.entities, e.artifactId ∈ t.artifactIds
  relationRefs : ∀ r ∈ t.relations, r.artifactId ∈ t.artifactIds ∧ r.srcId ∈ t.entityIds ∧
    r.dstId ∈ t.entityIds ∧ Refers r.analysisRunId t.runIds
  sourceRefs : ∀ s ∈ t.sourceLocations, s.artifactId ∈ t.artifactIds ∧ s.entityId ∈ t.entityIds ∧
    Refers s.analysisRunId t.runIds
  sourceDepth : ∀ s ∈ t.sourceLocations, s.inlineDepth.isSome
  materializationRefs : ∀ m ∈ t.materializations, m.artifactId ∈ t.artifactIds ∧
    m.functionId ∈ t.entityIds ∧ Refers m.analysisRunId t.runIds
  capabilityRefs : ∀ c ∈ t.capabilities, c.functionId ∈ t.entityIds ∧ c.analysisRunId ∈ t.runIds

theorem constraints_iff (t : Tables) :
    (Keyed Artifact.id t.artifacts ∧
      Keyed (fun a : Artifact => (a.investigationId, a.contentSha256)) t.artifacts ∧
      Keyed Run.id t.runs ∧ Keyed Entity.id t.entities ∧
      Keyed (fun e : Entity => (e.artifactId, e.localKey)) t.entities ∧
      Keyed (fun m : Materialization => (m.artifactId, m.functionId)) t.materializations ∧
      Keyed (fun c : Capability => (c.functionId, c.capability)) t.capabilities ∧
      (∀ a ∈ t.artifacts, a.investigationId ∈ t.investigationIds ∧ Refers a.catalogRunId t.runIds) ∧
      (∀ r ∈ t.runs, r.investigationId ∈ t.investigationIds) ∧
      (∀ e ∈ t.entities, e.artifactId ∈ t.artifactIds) ∧
      (∀ r ∈ t.relations, r.artifactId ∈ t.artifactIds ∧ r.srcId ∈ t.entityIds ∧
        r.dstId ∈ t.entityIds ∧ Refers r.analysisRunId t.runIds) ∧
      (∀ s ∈ t.sourceLocations, s.artifactId ∈ t.artifactIds ∧ s.entityId ∈ t.entityIds ∧
        Refers s.analysisRunId t.runIds) ∧
      (∀ s ∈ t.sourceLocations, s.inlineDepth.isSome) ∧
      (∀ m ∈ t.materializations, m.artifactId ∈ t.artifactIds ∧ m.functionId ∈ t.entityIds ∧
        Refers m.analysisRunId t.runIds) ∧
      (∀ c ∈ t.capabilities, c.functionId ∈ t.entityIds ∧ c.analysisRunId ∈ t.runIds)) ↔
    t.Constraints :=
  ⟨fun ⟨h1, h2, h3, h4, h5, h6, h7, h8, h9, h10, h11, h12, h13, h14, h15⟩ =>
      ⟨h1, h2, h3, h4, h5, h6, h7, h8, h9, h10, h11, h12, h13, h14, h15⟩,
    fun h => ⟨h.1, h.2, h.3, h.4, h.5, h.6, h.7, h.8, h.9, h.10, h.11, h.12, h.13, h.14, h.15⟩⟩

instance (t : Tables) : Decidable t.Constraints := decidable_of_iff _ (constraints_iff t)

end Tables

/-- A database: tables that meet the constraints of the schema. -/
structure Database extends Tables where
  constraints : toTables.Constraints

theorem Database.ext {db db' : Database} (h : db.toTables = db'.toTables) : db = db' := by
  cases db
  cases db'
  cases h
  rfl

/-! ## 3. Queries -/

namespace Tables

variable (t : Tables)

/-- `SELECT * FROM investigations LIMIT 1`. -/
def investigation : Option Investigation := t.investigations.head?

/-- `SELECT * FROM artifacts WHERE id=?`. -/
def artifact (id : String) : Option Artifact := lookup Artifact.id id t.artifacts

/-- `SELECT * FROM analysis_runs WHERE id=?`. -/
def run (id : String) : Option Run := lookup Run.id id t.runs

/-- `SELECT * FROM entities WHERE id=?`. -/
def entity (id : String) : Option Entity := lookup Entity.id id t.entities

/-- `SELECT * FROM entities WHERE artifact_id=? AND local_key=?`. -/
def entityAt (artifactId localKey : String) : Option Entity :=
  lookup (fun e : Entity => (e.artifactId, e.localKey)) (artifactId, localKey) t.entities

/-- `SELECT * FROM materializations WHERE function_id=?`. -/
def materialization (functionId : String) : Option Materialization :=
  lookup Materialization.functionId functionId t.materializations

end Tables

end Irez
