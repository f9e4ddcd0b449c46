/-
  File:      Irez/Failure.lean
  Subject:   A failed analysis is all or nothing: what `materialize` and the catalog phase
             of `ingest` leave when they throw.

  * `failFunction_runs`, `failCatalog_runs` -- the failure transactions break no
    constraint, so they commit wherever nothing else makes them fail;
  * `finish_error`, `finishCatalog_error` -- every exit with an exception after the claim
    goes through the failure transaction, on the tables the claim left;
  * `FunctionFailed`, `CatalogFailed` -- the tables after such an exit against those
    before the call.
-/
import Irez.Ingest
import Mathlib.Data.List.Forall2

open Irez.Basis

namespace Irez

/-! ## 1. The failure transactions commit -/

namespace Tables.Constraints

variable {t : Tables}

theorem endRun (h : t.Constraints) (id : String) (status : RunStatus) (endedAt : Time)
    (error : Option ErrorJson) : ((Statement.endRun id status endedAt error).effect t).Constraints := by
  have hids : ((Statement.endRun id status endedAt error).effect t).runIds = t.runIds :=
    map_updateWhere (f := Run.id) (g := Run.ended status endedAt error) (fun _ => rfl) t.runs
  refine { h with
    runKey := h.runKey.updateWhere fun _ => rfl
    artifactRefs := ?_, runRefs := ?_, relationRefs := ?_, sourceRefs := ?_
    materializationRefs := ?_, capabilityRefs := ?_ }
  · rw [hids]
    exact h.artifactRefs
  · intro r hr
    obtain ⟨r₀, hr₀, rfl⟩ := mem_updateWhere.mp hr
    have := h.runRefs r₀ hr₀
    split
    · exact this
    · exact this
  · rw [hids]
    exact h.relationRefs
  · rw [hids]
    exact h.sourceRefs
  · rw [hids]
    exact h.materializationRefs
  · rw [hids]
    exact h.capabilityRefs

theorem failFunction (h : t.Constraints) (error : ErrorJson) (functionId owner : String) :
    ((Statement.failFunction error functionId owner).effect t).Constraints := by
  refine { h with
    materializationKey := h.materializationKey.updateWhere fun _ => rfl
    materializationRefs := ?_ }
  intro m hm
  obtain ⟨m₀, hm₀, rfl⟩ := mem_updateWhere.mp hm
  have := h.materializationRefs m₀ hm₀
  split
  · exact this
  · exact this

theorem failArtifact (h : t.Constraints) (error : ErrorJson) (artifactId : String) :
    ((Statement.failArtifact error artifactId).effect t).Constraints := by
  have hids : ((Statement.failArtifact error artifactId).effect t).artifactIds = t.artifactIds :=
    map_updateWhere (f := Artifact.id) (g := Artifact.failed error) (fun _ => rfl) t.artifacts
  refine { h with
    artifactKey := h.artifactKey.updateWhere fun _ => rfl
    artifactContent := h.artifactContent.updateWhere fun _ => rfl
    artifactRefs := ?_, entityRefs := ?_, relationRefs := ?_, sourceRefs := ?_
    materializationRefs := ?_ }
  · intro a ha
    obtain ⟨a₀, ha₀, rfl⟩ := mem_updateWhere.mp ha
    have := h.artifactRefs a₀ ha₀
    split
    · exact this
    · exact this
  · rw [hids]
    exact h.entityRefs
  · rw [hids]
    exact h.relationRefs
  · rw [hids]
    exact h.sourceRefs
  · rw [hids]
    exact h.materializationRefs

end Tables.Constraints

theorem failFunction_runs (target : Target) (run owner message : String) (endedAt : Time)
    (db : Database) :
    ∃ db', failFunction noFaults target run owner message endedAt db = .ok db' := by
  have hkeep : ∀ s ∈ failFunctionStatements target run owner message endedAt, ∀ t : Tables,
      t.Constraints → (s.effect t).Constraints :=
    forall_failFunctionStatements.mpr ⟨fun _ ht => ht.endRun _ _ _ _,
      fun _ ht => ht.failFunction _ _ _⟩
  exact (Unbroken.of_kept _ db.constraints (fun _ h => h) hkeep).1.transaction

theorem failCatalog_runs (artifactId run message : String) (endedAt : Time) (db : Database) :
    ∃ db', failCatalog noFaults artifactId run message endedAt db = .ok db' := by
  have hkeep : ∀ s ∈ failCatalogStatements artifactId run message endedAt, ∀ t : Tables,
      t.Constraints → (s.effect t).Constraints :=
    forall_failCatalogStatements.mpr ⟨fun _ ht => ht.endRun _ _ _ _,
      fun _ ht => ht.failArtifact _ _⟩
  exact (Unbroken.of_kept _ db.constraints (fun _ h => h) hkeep).1.transaction

/-! ## 2. Every exit with an exception records the failure -/

theorem finish_error {env : Environment} (hf : env.failure = noFaults) {target : Target}
    {d : MaterializeDraw} {outcome : Outcome} {db db' : Database} {e : Thrown}
    (h : finish env target d outcome db = (db', .error e)) :
    failFunction noFaults target d.claim.runId d.claim.owner e.what d.failedAt db = .ok db' := by
  have hfail : ∀ e₀, failWith env.failure target d e₀ db = (db', .error e) →
      failFunction noFaults target d.claim.runId d.claim.owner e.what d.failedAt db = .ok db' := by
    intro e₀ h₀
    obtain ⟨db₂, h₂⟩ := failFunction_runs target d.claim.runId d.claim.owner e₀.what d.failedAt db
    rw [failWith, hf, h₂] at h₀
    cases h₀
    exact h₂
  unfold finish at h
  split at h
  · exact hfail _ h
  · split at h
    · exact hfail _ h
    · cases h

theorem finishCatalog_error {env : Environment} (hf : env.failure = noFaults) {artifact : Artifact}
    {d : CatalogDraw} {outcome : Outcome} {db db' : Database} {e : Thrown} {inv : String}
    (hinv : investigationId db.toTables = .ok inv)
    (h : finishCatalog env artifact d outcome db = (db', .error e)) :
    failCatalog noFaults artifact.id d.claim.runId e.what d.failedAt db = .ok db' := by
  have hfail : ∀ e₀, failCatalogWith env.failure artifact.id d e₀ db = (db', .error e) →
      failCatalog noFaults artifact.id d.claim.runId e.what d.failedAt db = .ok db' := by
    intro e₀ h₀
    obtain ⟨db₂, h₂⟩ := failCatalog_runs artifact.id d.claim.runId e₀.what d.failedAt db
    rw [failCatalogWith, hf, h₂] at h₀
    cases h₀
    exact h₂
  unfold finishCatalog at h
  split at h
  · exact hfail _ h
  · simp only [hinv] at h
    split at h
    · exact hfail _ h
    · cases h

/-! ## 3. Which exceptions mean Busy -/

/-- Exit code 7. -/
def Thrown.isBusy : Thrown → Bool
  | .irez e => e.exitCode = 7
  | .std _ => false

/-- What SQLite throws is not Busy. -/
theorem Thrown.FromDatabase.not_busy {e : Thrown} (h : e.FromDatabase) : e.isBusy = false := by
  rcases h with ⟨m, rfl⟩ | ⟨w, rfl⟩
  · rfl
  · rfl

theorem exec_not_busy {io : Faults} {s : Statement} {db : Database} {e : Thrown}
    (h : exec io s db = .error e) : e.isBusy = false :=
  (exec_error_database h).not_busy

theorem execAll_not_busy {io : Faults} {ss : List Statement} {db : Database} {e : Thrown}
    (h : execAll io ss db = .error e) : e.isBusy = false :=
  (execAll_error_database h).not_busy

theorem transaction_not_busy {io : Faults} {ss : List Statement} {db : Database} {e : Thrown}
    (h : transaction io ss db = .error e) : e.isBusy = false :=
  (transaction_error_database h).not_busy

theorem bind_eq_error {α β : Type} {x : Except Thrown α} {f : α → Except Thrown β} {e : Thrown}
    (h : (x >>= f) = .error e) : x = .error e ∨ ∃ a, x = .ok a ∧ f a = .error e := by
  cases x with
  | error e' =>
    cases h
    exact Or.inl rfl
  | ok a => exact Or.inr ⟨a, rfl, h⟩

theorem checkLocals_not_busy {declared : List String} {entities : List EntityRecord} {e : Thrown}
    (h : checkLocals declared entities = .error e) : e.isBusy = false := by
  induction entities generalizing declared with
  | nil => cases h
  | cons r rest ih =>
    unfold checkLocals at h
    split at h
    · cases h
      rfl
    · exact ih h

theorem checkRelations_not_busy {relations : List RelationRecord} {e : Thrown}
    (h : checkRelations relations = .error e) : e.isBusy = false := by
  unfold checkRelations at h
  split at h
  · cases h
    rfl
  · cases h

theorem checkEndpoints_not_busy {ids : String → Option String} {what : String}
    {locals : List String} {e : Thrown} (h : checkEndpoints ids what locals = .error e) :
    e.isBusy = false := by
  unfold checkEndpoints at h
  split at h
  · cases h
    rfl
  · cases h

theorem Publish.exec_not_busy {p : Publish} {io : Faults} {db : Database} {e : Thrown}
    (h : p.exec io db = .error e) : e.isBusy = false := by
  unfold Publish.exec at h
  rcases bind_eq_error h with h | ⟨_, _, h⟩
  · exact checkLocals_not_busy h
  rcases bind_eq_error h with h | ⟨_, _, h⟩
  · exact checkRelations_not_busy h
  rcases bind_eq_error h with h | ⟨_, _, h⟩
  · exact execAll_not_busy h
  rcases bind_eq_error h with h | ⟨_, _, h⟩
  · exact checkEndpoints_not_busy h
  rcases bind_eq_error h with h | ⟨_, _, h⟩
  · exact checkEndpoints_not_busy h
  exact transaction_not_busy h

theorem accept_not_busy {outcome : Outcome} {e : Thrown} (h : accept outcome = .error e) :
    e.isBusy = false := by
  unfold accept at h
  split at h
  · cases h
    rfl
  · split at h
    · cases h
      rfl
    · cases h

/-- After the claim no exit is Busy. -/
theorem finish_not_busy {env : Environment} (hf : env.failure = noFaults) {target : Target}
    {d : MaterializeDraw} {outcome : Outcome} {db db' : Database} {e : Thrown}
    (h : finish env target d outcome db = (db', .error e)) : e.isBusy = false := by
  have hfail : ∀ e₀, failWith env.failure target d e₀ db = (db', .error e) → e₀ = e := by
    intro e₀ h₀
    obtain ⟨db₂, h₂⟩ := failFunction_runs target d.claim.runId d.claim.owner e₀.what d.failedAt db
    rw [failWith, hf, h₂] at h₀
    cases h₀
    rfl
  unfold finish at h
  split at h
  · rename_i e₀ he₀
    rw [← hfail e₀ h]
    exact accept_not_busy he₀
  · split at h
    · rename_i e₀ he₀
      rw [← hfail e₀ h]
      exact Publish.exec_not_busy he₀
    · cases h

/-! ## 4. The tables after a failed call -/

/-- The row of an artifact whose catalog failed after a claim. -/
def Artifact.catalogFailed (run : String) (index : IndexLevel) (error : ErrorJson)
    (a : Artifact) : Artifact :=
  { a.failed error with catalogRunId := some run, requestedIndexLevel := index }

/-- One run was added, and it is failed and ended. -/
def OneFailedRun (message : String) (t t' : Tables) : Prop :=
  ∃ run, t'.runs = t.runs ++ [run] ∧ run.status = .failed ∧ run.endedAt.isSome ∧
    run.errorJson = some (errorJson message)

/-- **All or nothing for a function**: its claimed row is failed, a failed run is added,
    and everything else is as before. -/
structure FunctionFailed (handle : String) (now : Time) (message : String) (t t' : Tables) :
    Prop where
  investigations : t'.investigations = t.investigations
  artifacts : t'.artifacts = t.artifacts
  entities : t'.entities = t.entities
  relations : t'.relations = t.relations
  sourceLocations : t'.sourceLocations = t.sourceLocations
  capabilities : t'.capabilities = t.capabilities
  claimed : t.claimableFunctions handle now = 1
  materializations : List.Forall₂ (fun m m' => (m.functionId ≠ handle → m' = m) ∧
    (m.functionId = handle → m.claimable now = true → m' = m.failed (errorJson message)))
    t.materializations t'.materializations
  run : OneFailedRun message t t'

/-- **All or nothing for a catalog**: the artifact's row is failed, with its metadata and
    adapter columns as before. -/
structure CatalogFailed (artifactId run : String) (index : IndexLevel) (message : String)
    (t t' : Tables) : Prop where
  investigations : t'.investigations = t.investigations
  entities : t'.entities = t.entities
  relations : t'.relations = t.relations
  sourceLocations : t'.sourceLocations = t.sourceLocations
  materializations : t'.materializations = t.materializations
  capabilities : t'.capabilities = t.capabilities
  claimed : ∃ a ∈ t.artifacts, a.id = artifactId
  artifacts : List.Forall₂ (fun a a' => (a.id ≠ artifactId → a' = a) ∧
    (a.id = artifactId → a' = a.catalogFailed run index (errorJson message))) t.artifacts t'.artifacts
  run : OneFailedRun message t t'

/-- Ending the run a claim has just added. -/
theorem endRun_append {t : Tables} {run : Run} {id : String} {g : Run → Run} (hid : run.id = id)
    (h : id ∉ t.runIds) : updateWhere (·.id = id) g (t.runs ++ [run]) = t.runs ++ [g run] := by
  have hkeep : updateWhere (·.id = id) g t.runs = t.runs := by
    refine updateWhere_none fun r hr => decide_eq_false fun he => h ?_
    rw [← he]
    exact List.mem_map_of_mem hr
  have happ : updateWhere (·.id = id) g (t.runs ++ [run]) =
      updateWhere (·.id = id) g t.runs ++ updateWhere (·.id = id) g [run] :=
    List.map_append
  rw [happ, hkeep]
  simp [updateWhere, hid]

theorem functionFailed_of_claim {io : Faults} {d : MaterializeDraw} {target : Target}
    {db db₁ db' : Database} {message : String}
    (hc : claimFunction io d.claim target db = .ok db₁)
    (hf : failFunction noFaults target d.claim.runId d.claim.owner message d.failedAt db₁ = .ok db') :
    FunctionFailed target.handle d.claim.now message db.toTables db'.toTables := by
  obtain ⟨inv, _, hone, hfresh, h₁⟩ := claimFunction_ok hc
  have h' := failFunction_ok hf
  rw [h₁] at h'
  have hruns : db'.runs = db.runs ++ [(runStart d.claim inv target.artifact.id
      ["function", "--function-key", target.key]).ended .failed d.failedAt
        (some (errorJson message))] := by
    rw [h']
    exact endRun_append rfl hfresh
  have hmats : List.Forall₂ (fun m m' => (m.functionId ≠ target.handle → m' = m) ∧
      (m.functionId = target.handle → m.claimable d.claim.now = true → m' = m.failed (errorJson message)))
      db.materializations db'.materializations := by
    rw [h']
    unfold updateWhere
    rw [List.map_map, List.forall₂_map_right_iff]
    refine List.forall₂_same.mpr fun m _ => ⟨fun hne => ?_, fun heq hcl => ?_⟩
    · simp [hne]
    · simp [heq, hcl, Materialization.failed, Materialization.claimed]
  exact {
    investigations := by rw [h'], artifacts := by rw [h'], entities := by rw [h']
    relations := by rw [h'], sourceLocations := by rw [h'], capabilities := by rw [h']
    claimed := hone, materializations := hmats, run := ⟨_, hruns, rfl, rfl, rfl⟩ }

theorem catalogFailed_of_claim {io : Faults} {d : CatalogDraw} {artifact : Artifact}
    {index : IndexLevel} {db db₁ db' : Database} {message : String}
    (hc : claimCatalog io d.claim artifact index db = .ok db₁)
    (hf : failCatalog noFaults artifact.id d.claim.runId message d.failedAt db₁ = .ok db') :
    CatalogFailed artifact.id d.claim.runId index message db.toTables db'.toTables := by
  obtain ⟨inv, _, hone, hfresh, h₁⟩ := claimCatalog_ok hc
  have h' := failCatalog_ok hf
  rw [h₁] at h'
  have hruns : db'.runs = db.runs ++ [(runStart d.claim inv artifact.id
      ["catalog", "--input", artifact.storedPath]).ended .failed d.failedAt
        (some (errorJson message))] := by
    rw [h']
    exact endRun_append rfl hfresh
  -- the claim met one row, and the id of an artifact is its key
  obtain ⟨a₀, hsingle⟩ := List.length_eq_one_iff.mp hone
  have ha₀ : a₀ ∈ db.artifacts.filter fun a => a.id = artifact.id && a.claimable d.claim.now := by
    rw [hsingle]
    exact List.mem_singleton.mpr rfl
  obtain ⟨ha₀, hp⟩ := List.mem_filter.mp ha₀
  obtain ⟨hid₀, hcl₀⟩ : a₀.id = artifact.id ∧ a₀.claimable d.claim.now = true := by simpa using hp
  have hclaimable : ∀ a ∈ db.artifacts, a.id = artifact.id → a.claimable d.claim.now = true := by
    intro a ha hid
    rw [List.inj_on_of_nodup_map db.constraints.artifactKey ha ha₀ (hid.trans hid₀.symm)]
    exact hcl₀
  have harts : List.Forall₂ (fun a a' => (a.id ≠ artifact.id → a' = a) ∧
      (a.id = artifact.id → a' = a.catalogFailed d.claim.runId index (errorJson message)))
      db.artifacts db'.artifacts := by
    rw [h']
    unfold updateWhere
    rw [List.map_map, List.map_map, List.forall₂_map_right_iff]
    refine List.forall₂_same.mpr fun a ha => ⟨fun hne => ?_, fun heq => ?_⟩
    · simp [hne]
    · simp [heq, hclaimable a ha heq, Artifact.catalogFailed, Artifact.failed, Artifact.claimed]
  exact {
    investigations := by rw [h'], entities := by rw [h'], relations := by rw [h']
    sourceLocations := by rw [h'], materializations := by rw [h'], capabilities := by rw [h']
    claimed := ⟨a₀, ha₀, hid₀⟩, artifacts := harts, run := ⟨_, hruns, rfl, rfl, rfl⟩ }

/-! ## 5. All or nothing -/

/-- The function of an analysis is the one asked for. -/
theorem enter_analyse {t : Tables} {handle : String} {refresh : Bool} {target : Target}
    (h : enter t handle refresh = .ok (.analyse target)) :
    t.function handle = some target.function ∧ target.handle = handle ∧
      t.artifact target.function.artifactId = some target.artifact := by
  unfold enter at h
  split at h
  · cases h
  · rename_i function hfn
    unfold artifactOrThrow at h
    split at h
    · cases h
    · rename_i artifact hart
      split at hart
      · rename_i a ha
        cases hart
        have hans : ∀ (r : Materialized) (x : Except Thrown String),
            x.map (fun _ => Entry.answered r) ≠ .ok (.analyse target) := by
          intro r x hx
          cases x with
          | error e => cases hx
          | ok _ => cases hx
        dsimp only at h
        split at h
        · exact absurd h (hans _ _)
        · split at h
          · exact absurd h (hans _ _)
          · cases h
            obtain ⟨hent, _⟩ := Option.filter_eq_some_iff.mp hfn
            have hid : function.id = handle := key_of_lookup hent
            exact ⟨hfn, hid, ha⟩
      · cases hart

/-- **Failed analysis is all or nothing.** A `materialize` that throws Busy leaves the
    database as it was; one that throws after its claim leaves a failed function, and a
    refreshing `ingest` that throws after its claim a failed catalog. -/
theorem failed_analysis_all_or_nothing {env : Environment} (hf : env.failure = noFaults) :
    (∀ graph d handle refresh db db' e,
      materialize env graph d handle refresh db = (db', .error e) →
      (e.isBusy = true → db' = db) ∧
      (∀ target db₁, enter db.toTables handle refresh = .ok (.analyse target) →
        claimFunction env.claim d.claim target db = .ok db₁ →
        FunctionFailed handle d.claim.now e.what db.toTables db'.toTables)) ∧
    (∀ graph d artifact index db db₁ db' e,
      claimCatalog env.claim d.claim artifact index db = .ok db₁ →
      refreshCatalog env graph d artifact index db = (db', .error e) →
      CatalogFailed artifact.id d.claim.runId index e.what db.toTables db'.toTables) := by
  refine ⟨fun graph d handle refresh db db' e h => ⟨fun hbusy => ?_, fun target db₁ hent hc => ?_⟩,
    fun graph d artifact index db db₁ db' e hc h => ?_⟩
  · unfold materialize at h
    split at h
    · cases h
      rfl
    · cases h
    · split at h
      · cases h
        rfl
      · rw [finish_not_busy hf h] at hbusy
        exact Bool.noConfusion hbusy
  · simp only [materialize, hent, hc] at h
    have hfail := finish_error hf h
    have hff := functionFailed_of_claim hc hfail
    rw [(enter_analyse hent).2.1] at hff
    exact hff
  · simp only [refreshCatalog, hc] at h
    obtain ⟨inv, hinv, _, _, h₁⟩ := claimCatalog_ok hc
    have hinv₁ : investigationId db₁.toTables = .ok inv := by
      rw [h₁]
      exact hinv
    exact catalogFailed_of_claim hc (finishCatalog_error hf hinv₁ h)

/-! ## 6. A catalogued function whose analysis throws -/

namespace Sample

/-- An artifact as `Store::ingest_file` inserts it. -/
def stored (sha : String) : Artifact :=
  { id := "artifact:" ++ shortHash sha, investigationId := "investigation:i", kind := "llvm",
    contentSha256 := sha, storedPath := "artifacts/llvm/" ++ sha ++ ".ll", originalPath := "/m.ll",
    mediaType := "text/llvm", adapterId := some kAdapterId,
    adapterVersion := some kAdapterVersionString, targetTriple := none, dataLayout := none,
    metadata := ⟨none, []⟩, catalogStatus := .stored, catalogRunId := none,
    catalogErrorJson := none, catalogClaimOwner := none, catalogClaimStartedAt := none,
    requestedIndexLevel := .catalog, completedIndexLevel := .none, analysisSchemaVersion := 2 }

def sha : String := "0123456789abcdef"

def artifact : Artifact := stored sha

def tables : Tables :=
  { investigations := [⟨"investigation:i", "default"⟩], artifacts := [artifact], runs := [],
    entities := [], relations := [], sourceLocations := [], materializations := [],
    capabilities := [] }

/-- A state with one stored artifact. -/
def database : Database := ⟨tables, by decide⟩

def record : FunctionRecord :=
  { key := "f0", ordinal := 0, name := "main", declaration := false, linkage := "0",
    signature := "void ()", bodyFingerprint := "" }

/-- The same state with the function `f0` catalogued. -/
def catalogued : Database :=
  ⟨{ tables with
      entities := [record.entityRow artifact]
      materializations := [record.materializationRow artifact] }, by decide⟩

def handle : String := record.handle artifact

def claimDraw (owner run : String) (at_ : Time) : ClaimDraw := ⟨owner, run, at_, at_, at_⟩

def draw : MaterializeDraw := ⟨claimDraw "p" "r" 1, ⟨fun _ => 2, 2⟩, 2⟩

def catalogDraw : CatalogDraw := ⟨claimDraw "p" "r" 1, 2, 2⟩

def environment : Environment := ⟨noFaults, noFaults, noFaults⟩

end Sample

/-- Both phases on an adapter that throws. -/
theorem failed_analysis_all_or_nothing_sample :
    FunctionFailed Sample.handle 1 "bad_alloc" Sample.catalogued.toTables
      (materialize Sample.environment (fun _ _ => .error "bad_alloc") Sample.draw Sample.handle true
        Sample.catalogued).1.toTables ∧
    CatalogFailed Sample.artifact.id "run:r" .catalog "bad_alloc" Sample.database.toTables
      (refreshCatalog Sample.environment (fun _ => .error "bad_alloc") Sample.catalogDraw
        Sample.artifact .catalog Sample.database).1.toTables := by
  have h := @failed_analysis_all_or_nothing Sample.environment rfl
  constructor
  · exact (h.1 (fun _ _ => .error "bad_alloc") Sample.draw Sample.handle true Sample.catalogued _
      (.std "bad_alloc") rfl).2 ⟨Sample.record.entityRow Sample.artifact, Sample.artifact⟩ _ rfl rfl
  · exact h.2 (fun _ => .error "bad_alloc") Sample.catalogDraw Sample.artifact .catalog
      Sample.database _ _ (.std "bad_alloc") rfl rfl

end Irez
