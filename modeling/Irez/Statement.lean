/-
  File:      Irez/Statement.lean
  Subject:   The SQL statements of store.cpp and service.cpp, what each does to the
             tables, and how a transaction runs them.

  * `Statement` -- one constructor for each INSERT, UPDATE and DELETE of the sources
    with its bound parameters; `Statement.effect` is its meaning;
  * `exec` -- one statement on a database: it throws when the environment makes it
    fail (`Faults`: disk full, an I/O error, a lock) or when the tables it would leave
    break a constraint, and otherwise leaves those tables;
  * `execAll`, `transaction` -- a run of statements and its commit. A transaction that
    throws is rolled back by the destructor of `SQLite::Transaction`, which is why it has
    no database. What they throw is `Thrown.FromDatabase`;
  * `Unbroken` -- statements that break no constraint, one after the other: where nothing else
    fails they commit (`Unbroken.transaction`).
-/
import Irez.Schema

open Irez.Basis

namespace Irez

/-! ## 1. The statements -/

/-- `julianday(started)<julianday('now','-10 minutes')`; false on NULL. -/
def staleClaim (startedAt : Option Time) (now : Time) : Bool :=
  startedAt.any (· + tenMinutes < now)

/-- `status!='materializing' OR julianday(claim_started_at)<julianday('now','-10 minutes')`. -/
def Materialization.claimable (now : Time) (m : Materialization) : Bool :=
  m.status ≠ .materializing || staleClaim m.claimStartedAt now

/-- `catalog_status!='cataloging' OR julianday(catalog_claim_started_at)<…`. -/
def Artifact.claimable (now : Time) (a : Artifact) : Bool :=
  a.catalogStatus ≠ .cataloging || staleClaim a.catalogClaimStartedAt now

inductive Statement where
  -- Store::ingest_file, Store::run_start, Store::run_end
  | insertArtifact (row : Artifact)
  | insertRun (row : Run)
  | endRun (id : String) (status : RunStatus) (endedAt : Time) (error : Option ErrorJson)
  -- Service::ingest
  | requestFull (artifactId : String)
  | claimCatalog (owner : String) (startedAt now : Time) (index : IndexLevel) (artifactId : String)
  | setCatalogRun (run artifactId : String)
  | publishArtifact (module : ModuleRecord) (capabilities : List CapabilityEntry)
      (artifactId : String)
  | failArtifact (error : ErrorJson) (artifactId : String)
  | upsertFunction (row : Entity)
  | upsertMaterialization (row : Materialization)
  | markEntity (state : EntityState) (id : String)
  | completeFull (artifactId : String)
  -- Service::materialize
  | claimFunction (owner : String) (startedAt now : Time) (functionId : String)
  | failFunction (error : ErrorJson) (functionId owner : String)
  | deleteRelations (functionId : String)
  | deleteSourceLocations (functionId : String)
  | deleteEntities (functionId : String)
  | upsertEntity (row : Entity)
  | setOwner (functionId : String) (blockId : Option String) (id : String)
  | insertRelation (row : Relation)
  | insertSourceLocation (row : SourceLocation)
  | deleteCapabilities (functionId : String)
  | insertCapability (row : Capability)
  | publishFunction (run functionId owner : String)
  deriving DecidableEq, Repr

/-! ## 2. Their effects -/

/-- The key `UNIQUE(artifact_id, local_key)`. -/
def Entity.localPair (e : Entity) : String × String := (e.artifactId, e.localKey)

/-- The key `PRIMARY KEY (artifact_id, function_id)`. -/
def Materialization.pair (m : Materialization) : String × String := (m.artifactId, m.functionId)

/-- `SELECT id FROM entities WHERE function_id=?`. -/
def Tables.owned (t : Tables) (functionId : String) : List String :=
  (t.entities.filter fun e => e.functionId = some functionId).map (·.id)

/-- `DO UPDATE SET name=excluded.name, llvm_type=…, attributes_json=…` (catalog). -/
def Entity.recatalog (new old : Entity) : Entity :=
  { old with name := new.name, llvmType := new.llvmType, attributes := new.attributes }

/-- `DO UPDATE SET materialization='structure_ready', exact_text=…, opcode=…,
    llvm_type=…, attributes_json=…` (materialize). -/
def Entity.restructure (new old : Entity) : Entity :=
  { old with
    materialization := .structureReady, exactText := new.exactText, opcode := new.opcode,
    llvmType := new.llvmType, attributes := new.attributes }

/-- `DO UPDATE SET body_fingerprint=…, status=CASE WHEN '1' THEN excluded.status …,
    claim_owner=NULL, claim_started_at=NULL`: the CASE always takes its first arm. -/
def Materialization.recatalog (new old : Materialization) : Materialization :=
  { old with
    bodyFingerprint := new.bodyFingerprint, status := new.status, claimOwner := none,
    claimStartedAt := none }

/-- `SET ended_at=?,status=?,error_json=?`. -/
def Run.ended (status : RunStatus) (endedAt : Time) (error : Option ErrorJson) (r : Run) : Run :=
  { r with endedAt := some endedAt, status := status, errorJson := error }

/-- `SET catalog_status='cataloging',…`. -/
def Artifact.claimed (owner : String) (startedAt : Time) (index : IndexLevel) (a : Artifact) :
    Artifact :=
  { a with
    catalogStatus := .cataloging, catalogClaimOwner := some owner,
    catalogClaimStartedAt := some startedAt, catalogErrorJson := none,
    requestedIndexLevel := index }

/-- `SET target_triple=?,data_layout=?,metadata_json=?,…,catalog_status='catalog_ready',…`. -/
def Artifact.published (module : ModuleRecord) (capabilities : List CapabilityEntry)
    (a : Artifact) : Artifact :=
  { a with
    targetTriple := some module.targetTriple, dataLayout := some module.dataLayout,
    metadata := ⟨some module, capabilities⟩, adapterId := some kAdapterId,
    adapterVersion := some kAdapterVersionString, analysisSchemaVersion := kAnalysisSchemaVersion,
    catalogStatus := .catalogReady, catalogClaimOwner := none, catalogClaimStartedAt := none,
    completedIndexLevel := .catalog }

/-- `SET catalog_status='failed',…`. -/
def Artifact.failed (error : ErrorJson) (a : Artifact) : Artifact :=
  { a with
    catalogStatus := .failed, catalogErrorJson := some error, catalogClaimOwner := none,
    catalogClaimStartedAt := none }

/-- `SET status='materializing',…`. -/
def Materialization.claimed (owner : String) (startedAt : Time) (m : Materialization) :
    Materialization :=
  { m with
    status := .materializing, claimOwner := some owner, claimStartedAt := some startedAt,
    errorJson := none }

/-- `SET status='failed',…`. -/
def Materialization.failed (error : ErrorJson) (m : Materialization) : Materialization :=
  { m with
    status := .failed, errorJson := some error, claimOwner := none, claimStartedAt := none }

/-- `SET status='structure_ready',…`. -/
def Materialization.published (run : String) (m : Materialization) : Materialization :=
  { m with
    status := .structureReady, analysisRunId := some run, claimOwner := none,
    claimStartedAt := none, adapterId := some kAdapterId,
    adapterVersion := some kAdapterVersionString,
    analysisSchemaVersion := some kAnalysisSchemaVersion }

def Statement.effect : Statement → Tables → Tables
  | .insertArtifact row, t => { t with artifacts := t.artifacts ++ [row] }
  | .insertRun row, t => { t with runs := t.runs ++ [row] }
  | .endRun id status endedAt error, t =>
    { t with runs := updateWhere (·.id = id) (Run.ended status endedAt error) t.runs }
  | .requestFull artifactId, t =>
    { t with
      artifacts := updateWhere (·.id = artifactId)
        (fun a => { a with requestedIndexLevel := .full }) t.artifacts }
  | .claimCatalog owner startedAt now index artifactId, t =>
    { t with
      artifacts := updateWhere (fun a => a.id = artifactId && a.claimable now)
        (Artifact.claimed owner startedAt index) t.artifacts }
  | .setCatalogRun run artifactId, t =>
    { t with
      artifacts := updateWhere (·.id = artifactId)
        (fun a => { a with catalogRunId := some run }) t.artifacts }
  | .publishArtifact module capabilities artifactId, t =>
    { t with
      artifacts := updateWhere (·.id = artifactId)
        (Artifact.published module capabilities) t.artifacts }
  | .failArtifact error artifactId, t =>
    { t with artifacts := updateWhere (·.id = artifactId) (Artifact.failed error) t.artifacts }
  | .upsertFunction row, t =>
    { t with entities := upsert Entity.localPair Entity.recatalog row t.entities }
  | .upsertMaterialization row, t =>
    { t with
      materializations :=
        upsert Materialization.pair Materialization.recatalog row t.materializations }
  | .markEntity state id, t =>
    { t with
      entities := updateWhere (·.id = id)
        (fun e => { e with materialization := state }) t.entities }
  | .completeFull artifactId, t =>
    { t with
      artifacts := updateWhere (·.id = artifactId)
        (fun a => { a with completedIndexLevel := .full }) t.artifacts }
  | .claimFunction owner startedAt now functionId, t =>
    { t with
      materializations := updateWhere (fun m => m.functionId = functionId && m.claimable now)
        (Materialization.claimed owner startedAt) t.materializations }
  | .failFunction error functionId owner, t =>
    { t with
      materializations :=
        updateWhere (fun m => m.functionId = functionId && m.claimOwner = some owner)
          (Materialization.failed error) t.materializations }
  | .deleteRelations functionId, t =>
    { t with
      relations := deleteWhere (fun r => r.functionId = some functionId ||
        r.srcId ∈ t.owned functionId || r.dstId ∈ t.owned functionId) t.relations }
  | .deleteSourceLocations functionId, t =>
    { t with
      sourceLocations :=
        deleteWhere (fun s => s.entityId ∈ t.owned functionId) t.sourceLocations }
  | .deleteEntities functionId, t =>
    { t with
      entities :=
        deleteWhere (fun e => e.functionId = some functionId && e.id ≠ functionId) t.entities }
  | .upsertEntity row, t =>
    { t with entities := upsert Entity.localPair Entity.restructure row t.entities }
  | .setOwner functionId blockId id, t =>
    { t with
      entities := updateWhere (·.id = id)
        (fun e => { e with functionId := some functionId, blockId := blockId }) t.entities }
  | .insertRelation row, t => { t with relations := t.relations ++ [row] }
  | .insertSourceLocation row, t => { t with sourceLocations := t.sourceLocations ++ [row] }
  | .deleteCapabilities functionId, t =>
    { t with capabilities := deleteWhere (·.functionId = functionId) t.capabilities }
  | .insertCapability row, t => { t with capabilities := t.capabilities ++ [row] }
  | .publishFunction run functionId owner, t =>
    { t with
      materializations :=
        updateWhere (fun m => m.functionId = functionId && m.claimOwner = some owner)
          (Materialization.published run) t.materializations }

/-- The effects of a run of statements, one after the other. -/
def effects (ss : List Statement) (t : Tables) : Tables := ss.foldl (fun t s => s.effect t) t

@[simp] theorem effects_nil (t : Tables) : effects [] t = t := rfl

@[simp] theorem effects_cons (s : Statement) (ss : List Statement) (t : Tables) :
    effects (s :: ss) t = effects ss (s.effect t) := rfl

@[simp] theorem effects_append (ss ss' : List Statement) (t : Tables) :
    effects (ss ++ ss') t = effects ss' (effects ss t) := by
  simp [effects]

/-- **Frame**: what no statement of the run touches is as before. -/
theorem effects_frame {α : Type} (f : Tables → α) {ss : List Statement}
    (h : ∀ s ∈ ss, ∀ t, f (s.effect t) = f t) (t : Tables) : f (effects ss t) = f t := by
  induction ss generalizing t with
  | nil => rfl
  | cons s ss ih =>
    rw [effects_cons, ih (fun s' hs' => h s' (List.mem_cons_of_mem _ hs'))]
    exact h s List.mem_cons_self t

/-- What every statement of the run keeps holds after it. -/
theorem effects_invariant {I : Tables → Prop} {ss : List Statement} {t : Tables} (ht : I t)
    (h : ∀ s ∈ ss, ∀ t, I t → I (s.effect t)) : I (effects ss t) := by
  induction ss generalizing t with
  | nil => exact ht
  | cons s ss ih =>
    exact ih (h s List.mem_cons_self t ht) fun s' hs' => h s' (List.mem_cons_of_mem _ hs')

/-! ## 3. Running statements -/

/-- What the environment makes fail, and with which message: statements, and the commit. -/
structure Faults where
  statement : Statement → Tables → Option String
  commit : Tables → Option String

/-- An environment in which nothing fails for a reason outside the database. -/
def noFaults : Faults := ⟨fun _ _ => none, fun _ => none⟩

/-- `exec`: SQLite refuses a statement that would break a constraint. -/
def exec (io : Faults) (s : Statement) (db : Database) : Except Thrown Database :=
  match io.statement s db.toTables with
  | some message => .error (sqliteError message)
  | none =>
    if h : (s.effect db.toTables).Constraints then .ok ⟨s.effect db.toTables, h⟩
    else .error (sqliteError "constraint failed")

def execAll (io : Faults) : List Statement → Database → Except Thrown Database
  | [], db => .ok db
  | s :: ss, db =>
    match exec io s db with
    | .error e => .error e
    | .ok db' => execAll io ss db'

/-- `transaction.commit()`, which throws a foreign exception where it fails. -/
def commit (io : Faults) (db : Database) : Except Thrown Database :=
  match io.commit db.toTables with
  | some message => .error (.std message)
  | none => .ok db

/-- A transaction of a list of statements. -/
def transaction (io : Faults) (ss : List Statement) (db : Database) : Except Thrown Database :=
  match execAll io ss db with
  | .error e => .error e
  | .ok db' => commit io db'

theorem bind_eq_ok {α β : Type} {x : Except Thrown α} {f : α → Except Thrown β} {b : β}
    (h : (x >>= f) = .ok b) : ∃ a, x = .ok a ∧ f a = .ok b := by
  cases x with
  | error e => cases h
  | ok a => exact ⟨a, rfl, h⟩

theorem exec_ok {io : Faults} {s : Statement} {db db' : Database} (h : exec io s db = .ok db') :
    db'.toTables = s.effect db.toTables := by
  unfold exec at h
  split at h
  · cases h
  · split at h
    · cases h
      rfl
    · cases h

/-- **A run of statements that does not throw leaves their effects.** -/
theorem execAll_ok {io : Faults} {ss : List Statement} {db db' : Database}
    (h : execAll io ss db = .ok db') : db'.toTables = effects ss db.toTables := by
  induction ss generalizing db with
  | nil =>
    cases h
    rfl
  | cons s ss ih =>
    unfold execAll at h
    split at h
    · cases h
    · rename_i db₁ h₁
      rw [ih h, effects_cons, exec_ok h₁]

theorem commit_ok {io : Faults} {db db' : Database} (h : commit io db = .ok db') : db' = db := by
  unfold commit at h
  split at h
  · cases h
  · cases h
    rfl

theorem transaction_ok {io : Faults} {ss : List Statement} {db db' : Database}
    (h : transaction io ss db = .ok db') : db'.toTables = effects ss db.toTables := by
  unfold transaction at h
  split at h
  · cases h
  · rename_i db₁ h₁
    rw [commit_ok h, execAll_ok h₁]

/-- An exception of SQLite, not of a check. -/
def Thrown.FromDatabase (e : Thrown) : Prop := (∃ m, e = sqliteError m) ∨ ∃ w, e = .std w

theorem exec_error_database {io : Faults} {s : Statement} {db : Database} {e : Thrown}
    (h : exec io s db = .error e) : e.FromDatabase := by
  unfold exec at h
  split at h
  · cases h
    exact Or.inl ⟨_, rfl⟩
  · split at h
    · cases h
    · cases h
      exact Or.inl ⟨_, rfl⟩

theorem execAll_error_database {io : Faults} {ss : List Statement} {db : Database} {e : Thrown}
    (h : execAll io ss db = .error e) : e.FromDatabase := by
  induction ss generalizing db with
  | nil => cases h
  | cons s ss ih =>
    unfold execAll at h
    split at h
    · rename_i e' he'
      cases h
      exact exec_error_database he'
    · exact ih h

theorem transaction_error_database {io : Faults} {ss : List Statement} {db : Database} {e : Thrown}
    (h : transaction io ss db = .error e) : e.FromDatabase := by
  unfold transaction commit at h
  split at h
  · rename_i e' he'
    cases h
    exact execAll_error_database he'
  · split at h
    · cases h
      exact Or.inr ⟨_, rfl⟩
    · cases h

/-! ## 4. Statements that break no constraint -/

/-- Every statement leaves tables that meet the constraints. -/
def Unbroken : List Statement → Tables → Prop
  | [], _ => True
  | s :: ss, t => (s.effect t).Constraints ∧ Unbroken ss (s.effect t)

section Unbroken

variable {ss ss' : List Statement} {t : Tables} {db : Database}

theorem Unbroken.append (h : Unbroken ss t) (h' : Unbroken ss' (effects ss t)) :
    Unbroken (ss ++ ss') t := by
  induction ss generalizing t with
  | nil => exact h'
  | cons s ss ih => exact ⟨h.1, ih h.2 h'⟩

/-- **An invariant that every statement keeps, and that holds the constraints.** -/
theorem Unbroken.of_kept (ss : List Statement) {I : Tables → Prop} (hI : I t)
    (hc : ∀ t, I t → t.Constraints)
    (h : ∀ s ∈ ss, ∀ t, I t → I (s.effect t)) : Unbroken ss t ∧ I (effects ss t) := by
  induction ss generalizing t with
  | nil => exact ⟨trivial, hI⟩
  | cons s ss ih =>
    have hone := h s List.mem_cons_self t hI
    obtain ⟨hrest, hlast⟩ := ih hone fun s' hs' => h s' (List.mem_cons_of_mem _ hs')
    exact ⟨⟨hc _ hone, hrest⟩, hlast⟩

theorem Unbroken.execAll (h : Unbroken ss db.toTables) : ∃ db', execAll noFaults ss db = .ok db' := by
  induction ss generalizing db with
  | nil => exact ⟨db, rfl⟩
  | cons s ss ih =>
    obtain ⟨db', h'⟩ := @ih ⟨_, h.1⟩ h.2
    refine ⟨db', ?_⟩
    simp only [Irez.execAll, exec, noFaults, h.1, dite_true]
    exact h'

theorem Unbroken.transaction (h : Unbroken ss db.toTables) :
    ∃ db', transaction noFaults ss db = .ok db' := by
  obtain ⟨db', h'⟩ := h.execAll
  refine ⟨db', ?_⟩
  rw [Irez.transaction, h']
  rfl

end Unbroken

end Irez
