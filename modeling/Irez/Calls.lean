/-
  File:      Irez/Calls.lean
  Subject:   What one call can do to the database: every way in which `materialize`, the
             materialization on demand and the catalog phase of `ingest` end.

  * `MaterializeRun`, `materialize_run` -- answered without a claim, refused, failed, or
    published;
  * `EnsureRun`, `ensureMaterialized_run` -- nothing done, or a refreshing `materialize`;
  * `CatalogRun`, `refreshCatalog_run` -- refused, failed, or published.
-/
import Irez.Refresh
import Irez.Slice

open Irez.Basis

namespace Irez

/-! ## 1. materialize -/

/-- The ways in which a `materialize` call ends. -/
inductive MaterializeRun (env : Environment) (graph : String → String → Outcome)
    (d : MaterializeDraw) (handle : String) (refresh : Bool) (db : Database) :
    Database → Except Thrown Materialized → Prop
  /-- From the cache, or as a declaration. -/
  | answered {response : Materialized}
      (henter : enter db.toTables handle refresh = .ok (.answered response)) :
      MaterializeRun env graph d handle refresh db db (.ok response)
  /-- No function, or no claim. -/
  | refused {e : Thrown} : MaterializeRun env graph d handle refresh db db (.error e)
  /-- The failure transaction failed too. -/
  | abandoned {target : Target} {db₁ : Database} {e : Thrown}
      (henter : enter db.toTables handle refresh = .ok (.analyse target))
      (hclaim : claimFunction env.claim d.claim target db = .ok db₁) :
      MaterializeRun env graph d handle refresh db db₁ (.error e)
  | failed {target : Target} {db₁ db' : Database} {e : Thrown}
      (henter : enter db.toTables handle refresh = .ok (.analyse target))
      (hclaim : claimFunction env.claim d.claim target db = .ok db₁)
      (hfail : failFunction env.failure target d.claim.runId d.claim.owner e.what d.failedAt db₁ =
        .ok db') :
      MaterializeRun env graph d handle refresh db db' (.error e)
  | published {target : Target} {db₁ db' : Database} {records : List Record}
      (henter : enter db.toTables handle refresh = .ok (.analyse target))
      (hclaim : claimFunction env.claim d.claim target db = .ok db₁)
      (hgraph : graph target.artifact.storedPath target.key = .ok records)
      (hpublish : (Publish.of target d.claim.runId d.claim.owner d.publish records).exec
        env.publish db₁ = .ok db') :
      MaterializeRun env graph d handle refresh db db'
        (.ok (.published d.claim.runId (entityRecords records).length
          (relationRecords records).length))

section Materialize

variable {env : Environment} {graph : String → String → Outcome} {d : MaterializeDraw}
  {handle : String} {refresh : Bool} {db db' : Database}

/-- **Every `materialize` call ends in one of these ways.** -/
theorem materialize_run {result : Except Thrown Materialized}
    (h : materialize env graph d handle refresh db = (db', result)) :
    MaterializeRun env graph d handle refresh db db' result := by
  unfold materialize at h
  split at h
  · cases h
    exact .refused
  · rename_i henter
    cases h
    exact .answered henter
  · rename_i target henter
    split at h
    · cases h
      exact .refused
    · rename_i db₁ hclaim
      have hfail : ∀ e, failWith env.failure target d e db₁ = (db', result) →
          MaterializeRun env graph d handle refresh db db' result := by
        intro e he
        unfold failWith at he
        split at he
        · rename_i hf
          cases he
          exact .failed henter hclaim hf
        · cases he
          exact .abandoned henter hclaim
      unfold finish at h
      split at h
      · exact hfail _ h
      · rename_i records hacc
        split at h
        · exact hfail _ h
        · rename_i db₂ hpub
          cases h
          exact .published henter hclaim (accept_ok hacc).1 hpub

/-! ## 2. ensure_materialized -/

/-- The ways in which a materialization on demand ends. -/
inductive EnsureRun (env : Environment) (graph : String → String → Outcome) (d : MaterializeDraw)
    (handle : String) (db : Database) : Database → Except Thrown Unit → Prop
  | nothing : EnsureRun env graph d handle db db (.ok ())
  | materialized {entity : Entity} {function : String} {db' : Database}
      {result : Except Thrown Materialized} (hentity : db.entity handle = some entity)
      (hfunction : (if entity.kind = "function" then some handle else entity.functionId) =
        some function)
      (hstatus : (db.materialization function).any (·.status = .declarationOnly) = false)
      (hstale : (db.materialization function).any (cacheCurrent db.toTables) = false)
      (hrun : materialize env graph d function true db = (db', result)) :
      EnsureRun env graph d handle db db' (result.map fun _ => ())

theorem ensureMaterialized_run {result : Except Thrown Unit}
    (h : ensureMaterialized env graph d handle db = (db', result)) :
    EnsureRun env graph d handle db db' result := by
  unfold ensureMaterialized at h
  split at h
  · cases h
    exact .nothing
  · rename_i entity hentity
    split at h
    · cases h
      exact .nothing
    · rename_i function hfunction
      dsimp only at h
      split at h
      · cases h
        exact .nothing
      · rename_i hstatus
        split at h
        · cases h
          exact .nothing
        · rename_i hstale
          have hstatus := Bool.eq_false_iff.mpr hstatus
          have hstale := Bool.eq_false_iff.mpr hstale
          split at h
          · rename_i hm
            cases h
            exact .materialized hentity hfunction hstatus hstale hm
          · rename_i hm
            cases h
            exact .materialized hentity hfunction hstatus hstale hm

end Materialize

/-! ## 3. The catalog phase -/

/-- The ways in which the catalog phase of a refreshing `ingest` ends. -/
inductive CatalogRun (env : Environment) (graph : String → Outcome) (d : CatalogDraw)
    (artifact : Artifact) (index : IndexLevel) (db : Database) :
    Database → Except Thrown Unit → Prop
  | refused {e : Thrown} : CatalogRun env graph d artifact index db db (.error e)
  | abandoned {db₁ : Database} {e : Thrown}
      (hclaim : claimCatalog env.claim d.claim artifact index db = .ok db₁) :
      CatalogRun env graph d artifact index db db₁ (.error e)
  | failed {db₁ db' : Database} {e : Thrown}
      (hclaim : claimCatalog env.claim d.claim artifact index db = .ok db₁)
      (hfail : failCatalog env.failure artifact.id d.claim.runId e.what d.failedAt db₁ = .ok db') :
      CatalogRun env graph d artifact index db db' (.error e)
  | published {db₁ db' : Database} {module : ModuleRecord} {records : List Record}
      (hclaim : claimCatalog env.claim d.claim artifact index db = .ok db₁)
      (hgraph : graph artifact.storedPath = .ok records)
      (hmodule : moduleRecord records = some module)
      (hpublish : publishCatalog env.publish artifact d.claim.runId module records d.endedAt db₁ =
        .ok db') :
      CatalogRun env graph d artifact index db db' (.ok ())

theorem acceptCatalog_ok {outcome : Outcome} {module : ModuleRecord} {records : List Record}
    (h : acceptCatalog outcome = .ok (module, records)) :
    outcome = .ok records ∧ moduleRecord records = some module := by
  unfold acceptCatalog at h
  split at h
  · cases h
  · rename_i rs hacc
    split at h
    · cases h
    · rename_i m hm
      cases h
      exact ⟨(accept_ok hacc).1, hm⟩

/-- **Every catalog phase ends in one of these ways.** -/
theorem refreshCatalog_run {env : Environment} {graph : String → Outcome} {d : CatalogDraw}
    {artifact : Artifact} {index : IndexLevel} {db db' : Database} {result : Except Thrown Unit}
    (h : refreshCatalog env graph d artifact index db = (db', result)) :
    CatalogRun env graph d artifact index db db' result := by
  unfold refreshCatalog at h
  split at h
  · cases h
    exact .refused
  · rename_i db₁ hclaim
    have hfail : ∀ e, failCatalogWith env.failure artifact.id d e db₁ = (db', result) →
        CatalogRun env graph d artifact index db db' result := by
      intro e he
      unfold failCatalogWith at he
      split at he
      · rename_i hf
        cases he
        exact .failed hclaim hf
      · cases he
        exact .abandoned hclaim
    unfold finishCatalog at h
    split at h
    · exact hfail _ h
    · rename_i module records hacc
      obtain ⟨hg, hm⟩ := acceptCatalog_ok hacc
      split at h
      · cases h
        exact .abandoned hclaim
      · split at h
        · exact hfail _ h
        · rename_i db₂ hpub
          cases h
          exact .published hclaim hg hm hpub

end Irez
