/-
  File:      Irez/Materialize.lean
  Subject:   `Service::materialize` (service.cpp 670-964): the cache test, the claim, the
             publish transaction and the failure transaction.

  A call is one transaction that claims the function, one adapter call outside any
  transaction, and one transaction that publishes the snapshot or records the failure.
  The transactions are definitions of their own, so that several processes can be run
  against one database; `materialize` composes them as the source does.

  * what the call draws from outside (uuids, the clock) is an argument (`ClaimDraw`,
    `PublishDraw`), what the environment makes fail another (`Environment`).
-/
import Irez.Statement
import Irez.Handle

open Irez.Basis

namespace Irez

/-! ## 1. The cache test -/

/-- `capability_manifest_current`. -/
def capabilityManifestCurrent (t : Tables) (functionId : String) : Bool :=
  let rows := t.capabilities.filter fun c => c.functionId = functionId && c.status = "completed"
  rows.length = kMaterializationCapabilities.length &&
    kMaterializationCapabilities.all fun (name, precision) =>
      rows.any fun c => c.capability = name && c.precision.getD "" = precision

/-- `cache_current`, the test of `ensure_materialized` too. -/
def cacheCurrent (t : Tables) (m : Materialization) : Bool :=
  m.status = .structureReady && m.adapterId.getD "" = kAdapterId &&
    m.adapterVersion.getD "" = kAdapterVersionString &&
    m.analysisSchemaVersion = some kAnalysisSchemaVersion &&
    capabilityManifestCurrent t m.functionId

/-- The function to be analysed: its row and its artifact's, as read before the claim. -/
structure Target where
  function : Entity
  artifact : Artifact
  deriving DecidableEq, Repr

/-- `local_key.substr(local_key.find(':') + 1)`. -/
def Target.key (target : Target) : String :=
  if ':' ∈ target.function.localKey.toList then tailFields ':' target.function.localKey
  else target.function.localKey

def Target.handle (target : Target) : String := target.function.id

/-- The response of a `materialize` call. -/
inductive Materialized where
  | cached (run : Option String)
  | declarationOnly
  | published (run : String) (entities relations : Nat)
  deriving DecidableEq, Repr

/-- What the call decides on before it claims. -/
inductive Entry where
  | answered (response : Materialized)
  | analyse (target : Target)
  deriving DecidableEq, Repr

def artifactOrThrow (t : Tables) (id : String) : Except Thrown Artifact :=
  match t.artifact id with
  | some a => .ok a
  | none => .error (.irez (notFound "artifact not found"))

def investigationId (t : Tables) : Except Thrown String :=
  match t.investigation with
  | some inv => .ok inv.id
  | none => .error (.irez { message := "investigation is missing" })

/-- `SELECT * FROM entities WHERE id=? AND kind='function'`. -/
def Tables.function (t : Tables) (handle : String) : Option Entity :=
  (t.entity handle).filter (·.kind = "function")

def enter (t : Tables) (handle : String) (refresh : Bool) : Except Thrown Entry :=
  match t.function handle with
  | none => .error (.irez (notFound "function not found"))
  | some function =>
    match artifactOrThrow t function.artifactId with
    | .error e => .error e
    | .ok artifact =>
      let state := t.materialization handle
      if !refresh && state.any (cacheCurrent t) then
        (investigationId t).map fun _ => .answered (.cached (state.bind (·.analysisRunId)))
      else if state.any (·.status = .declarationOnly) then
        (investigationId t).map fun _ => .answered .declarationOnly
      else .ok (.analyse ⟨function, artifact⟩)

/-! ## 2. The claim -/

/-- What the claim transaction draws: two uuids, the two moments it writes and the moment
    at which SQLite evaluates `julianday('now')`. -/
structure ClaimDraw where
  owner : String
  run : String
  claimedAt : Time
  now : Time
  startedAt : Time
  deriving DecidableEq, Repr

/-- `"run:" + uuid4()`. -/
def ClaimDraw.runId (d : ClaimDraw) : String := "run:" ++ d.run

/-- The row `Store::run_start` inserts. -/
def runStart (d : ClaimDraw) (investigation artifactId : String) (invocation : List String) : Run :=
  { id := d.runId, investigationId := investigation, producer := "irez-llvm-index",
    producerVersion := kAdapterVersionString, invocation := invocation,
    inputArtifact := artifactId, startedAt := d.startedAt, endedAt := none, status := .running,
    errorJson := none }

/-- `SELECT changes()` after the claim: the rows the UPDATE meets. -/
def Tables.claimableFunctions (t : Tables) (functionId : String) (now : Time) : Nat :=
  (t.materializations.filter fun m => m.functionId = functionId && m.claimable now).length

def claimFunction (io : Faults) (d : ClaimDraw) (target : Target) (db : Database) :
    Except Thrown Database :=
  match exec io (.claimFunction d.owner d.claimedAt d.now target.handle) db with
  | .error e => .error e
  | .ok db₁ =>
    if db.claimableFunctions target.handle d.now ≠ 1 then
      .error (.irez (busy "function is being materialized by another process"))
    else
      match investigationId db₁.toTables with
      | .error e => .error e
      | .ok inv =>
        transaction io [.insertRun (runStart d inv target.artifact.id
          ["function", "--function-key", target.key])] db₁

/-! ## 3. The failure transaction -/

/-- `{"message": …}`. -/
def errorJson (message : String) : ErrorJson := ⟨message⟩

def failFunctionStatements (target : Target) (run owner message : String) (endedAt : Time) :
    List Statement :=
  [.endRun run .failed endedAt (some (errorJson message)),
    .failFunction (errorJson message) target.handle owner]

def failFunction (io : Faults) (target : Target) (run owner message : String) (endedAt : Time)
    (db : Database) : Except Thrown Database :=
  transaction io (failFunctionStatements target run owner message endedAt) db

/-! ## 4. The publish transaction -/

/-- The first empty or repeated `local_key` throws. -/
def checkLocals (declared : List String) : List EntityRecord → Except Thrown Unit
  | [] => .ok ()
  | e :: rest =>
    if e.localKey = "" || e.localKey ∈ declared then
      .error (.irez (adapterFailure
        ("adapter emitted an empty or duplicate entity local_key: " ++ e.localKey)))
    else checkLocals (e.localKey :: declared) rest

def checkRelations (relations : List RelationRecord) : Except Thrown Unit :=
  if relations.any fun r => r.kind = "" || r.src = "" || r.dst = "" then
    .error (.irez (adapterFailure "adapter emitted a relation with missing kind or endpoint"))
  else .ok ()

/-- The row a record upserts: the columns `function_id` and `block_id` are set later. -/
def entityRow (artifact : Artifact) (e : EntityRecord) : Entity :=
  { id := entityId artifact e.localKey, artifactId := artifact.id, functionId := none,
    blockId := none, kind := e.kind, localKey := e.localKey, ordinal := e.ordinal,
    name := e.name, opcode := e.opcode, llvmType := e.llvmType,
    materialization := .structureReady, exactText := e.exactText, attributes := e.attributes }

/-- Everything up to the upserts of the stream's entities. -/
def replaceStatements (target : Target) (entities : List EntityRecord) : List Statement :=
  [.deleteRelations target.handle, .deleteSourceLocations target.handle,
    .deleteEntities target.handle] ++
    entities.map fun e => .upsertEntity (entityRow target.artifact e)

/-- `local_to_id`: the keys of the stream's entities, then the endpoints of its relations
    that the database knows. -/
def localToId (t : Tables) (artifact : Artifact) (entities : List EntityRecord)
    (relations : List RelationRecord) (localKey : String) : Option String :=
  if localKey ∈ entities.map (·.localKey) then some (entityId artifact localKey)
  else if localKey ∈ relations.flatMap (fun r => [r.src, r.dst]) then
    (t.entityAt artifact.id localKey).map (·.id)
  else none

/-- The first key that `local_to_id` lacks throws. -/
def checkEndpoints (ids : String → Option String) (what : String) (locals : List String) :
    Except Thrown Unit :=
  match locals.find? fun l => (ids l).isNone with
  | some l => .error (.irez (adapterFailure (what ++ " endpoint was not declared: " ++ l)))
  | none => .ok ()

/-- The block of an instruction: the source of the first `llvm.contains` relation to it
    that starts at a block. -/
def blockOf (ids : String → Option String) (relations : List RelationRecord) (e : EntityRecord) :
    Option String :=
  if e.kind = "instruction" then
    (relations.find? fun r =>
      r.kind = "llvm.contains" && r.dst = e.localKey && startsWith "block:" r.src).bind
      fun r => ids r.src
  else none

/-- `kind == "function"` and `kind == "global"` are skipped. -/
def EntityRecord.interior (e : EntityRecord) : Bool := e.kind ≠ "function" && e.kind ≠ "global"

/-- The moments the publish transaction draws. -/
structure PublishDraw where
  completedAt : String → Time
  endedAt : Time

/-- What the writing half of a publish is bound to. -/
structure Publish where
  target : Target
  run : String
  owner : String
  draw : PublishDraw
  entities : List EntityRecord
  relations : List RelationRecord
  sources : List SourceRecord

/-- The call's adapter records, taken apart. -/
def Publish.of (target : Target) (run owner : String) (draw : PublishDraw) (records : List Record) :
    Publish :=
  ⟨target, run, owner, draw, entityRecords records, relationRecords records,
    sourceRecords records⟩

namespace Publish

variable (p : Publish) (ids : String → Option String)

/-- `function_id`. -/
def functionId : String := (ids ("function:" ++ p.target.key)).getD p.target.handle

def ownerStatements : List Statement :=
  (p.entities.filter (·.interior)).map fun e =>
    .setOwner (p.functionId ids) (blockOf ids p.relations e) ((ids e.localKey).getD "")

def relationRow (r : RelationRecord) : Relation :=
  { artifactId := p.target.artifact.id, functionId := some (p.functionId ids),
    srcId := (ids r.src).getD "", dstId := (ids r.dst).getD "", kind := r.kind,
    ordinal := r.ordinal, analysisRunId := some p.run, modality := r.modality,
    precision := r.precision, attributes := r.attributes }

def sourceRow (s : SourceRecord) : SourceLocation :=
  { artifactId := p.target.artifact.id, entityId := (ids s.entity).getD "", file := s.file,
    line := s.line, columnNo := s.column, discriminator := s.discriminator,
    inlineDepth := s.inlineDepth, scopeName := some s.scope, analysisRunId := some p.run }

def capabilityRow (capability : String × String) : Capability :=
  { functionId := p.functionId ids, capability := capability.1, status := "completed",
    precision := some capability.2, analyzer := kAdapterId,
    analyzerVersion := kAdapterVersionString, analysisSchemaVersion := kAnalysisSchemaVersion,
    analysisRunId := p.run, completedAt := p.draw.completedAt capability.1 }

/-- Everything from the owners of the entities to the end of the run. -/
def writeStatements : List Statement :=
  p.ownerStatements ids ++ p.relations.map (fun r => .insertRelation (p.relationRow ids r)) ++
    p.sources.map (fun s => .insertSourceLocation (p.sourceRow ids s)) ++
    [.markEntity .structureReady (p.functionId ids), .deleteCapabilities (p.functionId ids)] ++
    kMaterializationCapabilities.map (fun c => .insertCapability (p.capabilityRow ids c)) ++
    [.publishFunction p.run (p.functionId ids) p.owner,
      .endRun p.run .success p.draw.endedAt none]

def localIds (t : Tables) : String → Option String :=
  localToId t p.target.artifact p.entities p.relations

/-- The publish transaction. -/
def exec (io : Faults) (db : Database) : Except Thrown Database := do
  checkLocals [] p.entities
  checkRelations p.relations
  let db₁ ← execAll io (replaceStatements p.target p.entities) db
  let ids := p.localIds db₁.toTables
  checkEndpoints ids "relation" (p.relations.flatMap fun r => [r.src, r.dst])
  checkEndpoints ids "source" (p.sources.map (·.entity))
  transaction io (p.writeStatements ids) db₁

end Publish

/-! ## 5. The call -/

/-- The faults of the three kinds of transactions. -/
structure Environment where
  claim : Faults
  publish : Faults
  failure : Faults

structure MaterializeDraw where
  claim : ClaimDraw
  publish : PublishDraw
  failedAt : Time

/-- What the adapter call comes to: the records, or the exception to fail with. -/
def accept (outcome : Outcome) : Except Thrown (List Record) :=
  match outcome with
  | .error what => .error (.std what)
  | .ok records =>
    match firstError records with
    | some message => .error (.irez (adapterFailure message))
    | none => .ok records

/-- A failed call records its failure and throws; it throws the exception of the failure
    transaction where that one fails. -/
def failWith (io : Faults) (target : Target) (d : MaterializeDraw) (e : Thrown) (db : Database) :
    Database × Except Thrown Materialized :=
  match failFunction io target d.claim.runId d.claim.owner e.what d.failedAt db with
  | .ok db' => (db', .error e)
  | .error e' => (db, .error e')

/-- Everything after the claim. -/
def finish (env : Environment) (target : Target) (d : MaterializeDraw) (outcome : Outcome)
    (db : Database) : Database × Except Thrown Materialized :=
  match accept outcome with
  | .error e => failWith env.failure target d e db
  | .ok records =>
    match (Publish.of target d.claim.runId d.claim.owner d.publish records).exec env.publish db with
    | .error e => failWith env.failure target d e db
    | .ok db' => (db', .ok (.published d.claim.runId (entityRecords records).length
        (relationRecords records).length))

/-- `Service::materialize`; `graph` is `adapter::function_graph` on the file system. -/
def materialize (env : Environment) (graph : String → String → Outcome) (d : MaterializeDraw)
    (handle : String) (refresh : Bool) (db : Database) : Database × Except Thrown Materialized :=
  match enter db.toTables handle refresh with
  | .error e => (db, .error e)
  | .ok (.answered response) => (db, .ok response)
  | .ok (.analyse target) =>
    match claimFunction env.claim d.claim target db with
    | .error e => (db, .error e)
    | .ok db₁ => finish env target d (graph target.artifact.storedPath target.key) db₁

/-! ## 6. What the transactions leave -/

/-- **A committed claim**: one claimable row is claimed, a running run is added, and
    nothing else changes. -/
theorem claimFunction_ok {io : Faults} {d : ClaimDraw} {target : Target} {db db₁ : Database}
    (h : claimFunction io d target db = .ok db₁) :
    ∃ inv, investigationId db.toTables = .ok inv ∧
      db.claimableFunctions target.handle d.now = 1 ∧ d.runId ∉ db.runIds ∧
      db₁.toTables = { db.toTables with
        materializations :=
          updateWhere (fun m => m.functionId = target.handle && m.claimable d.now)
            (Materialization.claimed d.owner d.claimedAt) db.materializations
        runs := db.runs ++ [runStart d inv target.artifact.id
          ["function", "--function-key", target.key]] } := by
  unfold claimFunction at h
  split at h
  · cases h
  · rename_i db' hexec
    have ht := exec_ok hexec
    split at h
    · cases h
    · rename_i hone
      have hone : db.claimableFunctions target.handle d.now = 1 := by omega
      split at h
      · cases h
      · rename_i inv hinv
        have htx := transaction_ok h
        rw [effects_cons, effects_nil, ht] at htx
        have hi : investigationId db.toTables = .ok inv := by
          have he : investigationId db'.toTables = investigationId db.toTables := by
            rw [ht]
            rfl
          rw [← he]
          exact hinv
        refine ⟨inv, hi, hone, ?_, htx⟩
        have hkey := db₁.constraints.runKey
        rw [htx] at hkey
        exact hkey.not_mem

/-- A committed claim as its two statements. -/
theorem claimFunction_effects {io : Faults} {d : ClaimDraw} {target : Target} {db db₁ : Database}
    (h : claimFunction io d target db = .ok db₁) :
    ∃ run : Run, run.id = d.runId ∧
      db₁.toTables = effects [.claimFunction d.owner d.claimedAt d.now target.handle,
        .insertRun run] db.toTables := by
  obtain ⟨inv, _, _, _, ht⟩ := claimFunction_ok h
  exact ⟨runStart d inv target.artifact.id ["function", "--function-key", target.key], rfl, ht⟩

/-- What all statements of the first half of a publish meet. -/
theorem forall_replaceStatements {Q : Statement → Prop} {target : Target}
    {entities : List EntityRecord} : (∀ s ∈ replaceStatements target entities, Q s) ↔
      Q (.deleteRelations target.handle) ∧ Q (.deleteSourceLocations target.handle) ∧
        Q (.deleteEntities target.handle) ∧
        ∀ e ∈ entities, Q (.upsertEntity (entityRow target.artifact e)) := by
  simp [replaceStatements]

/-- What all statements of its second half meet. -/
theorem Publish.forall_writeStatements {Q : Statement → Prop} {p : Publish}
    {ids : String → Option String} : (∀ s ∈ p.writeStatements ids, Q s) ↔
      (∀ e ∈ p.entities, e.interior = true → Q (.setOwner (p.functionId ids)
        (blockOf ids p.relations e) ((ids e.localKey).getD ""))) ∧
      (∀ r ∈ p.relations, Q (.insertRelation (p.relationRow ids r))) ∧
      (∀ s ∈ p.sources, Q (.insertSourceLocation (p.sourceRow ids s))) ∧
      Q (.markEntity .structureReady (p.functionId ids)) ∧
      Q (.deleteCapabilities (p.functionId ids)) ∧
      (∀ c ∈ kMaterializationCapabilities, Q (.insertCapability (p.capabilityRow ids c))) ∧
      Q (.publishFunction p.run (p.functionId ids) p.owner) ∧
      Q (.endRun p.run .success p.draw.endedAt none) := by
  unfold writeStatements ownerStatements
  simp only [List.forall_mem_append, List.forall_mem_map, List.forall_mem_cons, List.mem_filter,
    List.not_mem_nil, false_implies, implies_true, and_true, and_imp, and_assoc]

theorem forall_failFunctionStatements {Q : Statement → Prop} {target : Target}
    {run owner message : String} {endedAt : Time} :
    (∀ s ∈ failFunctionStatements target run owner message endedAt, Q s) ↔
      Q (.endRun run .failed endedAt (some (errorJson message))) ∧
        Q (.failFunction (errorJson message) target.handle owner) := by
  simp [failFunctionStatements]

theorem failFunction_ok {io : Faults} {target : Target} {run owner message : String}
    {endedAt : Time} {db db' : Database}
    (h : failFunction io target run owner message endedAt db = .ok db') :
    db'.toTables = { db.toTables with
      runs := updateWhere (·.id = run)
        (Run.ended .failed endedAt (some (errorJson message))) db.runs
      materializations :=
        updateWhere (fun m => m.functionId = target.handle && m.claimOwner = some owner)
          (Materialization.failed (errorJson message)) db.materializations } :=
  transaction_ok h

/-- **A committed publish**: the stream passed its checks, and the tables are those the
    statements leave. -/
theorem Publish.exec_ok {p : Publish} {io : Faults} {db db' : Database}
    (h : p.exec io db = .ok db') :
    let t₁ := effects (replaceStatements p.target p.entities) db.toTables
    checkLocals [] p.entities = .ok () ∧ checkRelations p.relations = .ok () ∧ t₁.Constraints ∧
      checkEndpoints (p.localIds t₁) "relation" (p.relations.flatMap fun r => [r.src, r.dst]) =
        .ok () ∧
      checkEndpoints (p.localIds t₁) "source" (p.sources.map (·.entity)) = .ok () ∧
      db'.toTables = effects (p.writeStatements (p.localIds t₁)) t₁ := by
  unfold Publish.exec at h
  obtain ⟨_, hlocals, h⟩ := bind_eq_ok h
  obtain ⟨_, hrels, h⟩ := bind_eq_ok h
  obtain ⟨db₁, hexec, h⟩ := bind_eq_ok h
  obtain ⟨_, hrel, h⟩ := bind_eq_ok h
  obtain ⟨_, hsrc, h⟩ := bind_eq_ok h
  have ht := execAll_ok hexec
  have htx := transaction_ok h
  rw [ht] at hrel hsrc htx
  exact ⟨hlocals, hrels, ht ▸ db₁.constraints, hrel, hsrc, htx⟩

end Irez
