/-
  File:      Irez/Acceptance.lean
  Subject:   A publish whose stream passes its checks commits (service.cpp 790-939): no statement
             of it breaks a constraint of the schema.

  SQLite tests every statement on the tables that the statements before it have left. A publish
  deletes rows that other rows refer to, upserts rows under ids of its own making, and inserts
  rows that refer to both.

  * `FunctionRows` -- rows of `materializations` and of capabilities are about functions, so that
    no delete takes what they refer to; `Reachable.functionRows`;
  * `Publish.Admissible` -- what a publish needs of the tables and of its stream;
  * `Publish.Admissible.commits` -- with it, checks that pass are all that can fail.
-/
import Irez.Failure
import Irez.Selection

open Irez.Basis

namespace Irez

/-! ## 1. Rows about functions -/

/-- The id is the handle of a function of a stored artifact. -/
def Tables.NamesFunction (t : Tables) (id : String) : Prop :=
  ∃ a, t.Stores a ∧ ∃ key, id = entityId a (functionLocal key)

structure FunctionRows (t : Tables) : Prop where
  materializations : ∀ m ∈ t.materializations, t.NamesFunction m.functionId
  capabilities : ∀ c ∈ t.capabilities, t.NamesFunction c.functionId

/-- The statements that insert such rows name functions of the artifact `a`. -/
def Statement.OfFunctions (a : Artifact) : Statement → Prop
  | .upsertMaterialization row => ∃ key, row.functionId = entityId a (functionLocal key)
  | .insertCapability row => ∃ key, row.functionId = entityId a (functionLocal key)
  | _ => True

section FunctionRows

variable {t t' : Tables} {a : Artifact}

theorem Tables.NamesFunction.effect {id : String} (h : t.NamesFunction id) (s : Statement) :
    (s.effect t).NamesFunction id := by
  obtain ⟨a, hst, key, hid⟩ := h
  exact ⟨a, hst.effect s, key, hid⟩

theorem FunctionRows.effect (h : FunctionRows t) (hst : t.Stores a) {s : Statement}
    (hs : s.OfFunctions a) : FunctionRows (s.effect t) := by
  have hkeep : ∀ id, t.NamesFunction id → (s.effect t).NamesFunction id := fun _ hid => hid.effect s
  have hnew : ∀ {id}, (∃ key, id = entityId a (functionLocal key)) →
      (s.effect t).NamesFunction id := fun hid => ⟨a, hst.effect s, hid⟩
  -- an update keeps the column
  have hupdate : ∀ {p : Materialization → Bool} {g : Materialization → Materialization},
      (∀ m, (g m).functionId = m.functionId) → ∀ m ∈ updateWhere p g t.materializations,
        (s.effect t).NamesFunction m.functionId := by
    intro p g hg m hm
    obtain ⟨m₀, hm₀, rfl⟩ := mem_updateWhere.mp hm
    refine hkeep _ ?_
    split
    · rw [hg]
      exact h.materializations m₀ hm₀
    · exact h.materializations m₀ hm₀
  have hcaps : ∀ c ∈ t.capabilities, (s.effect t).NamesFunction c.functionId :=
    fun c hc => hkeep _ (h.capabilities c hc)
  cases s with
  | upsertMaterialization row =>
    refine ⟨fun m hm => ?_, hcaps⟩
    have hm : m ∈ upsertAll Materialization.pair Materialization.recatalog [row]
        t.materializations := hm
    have hpair : ∀ n m, Materialization.pair (Materialization.recatalog n m) =
        Materialization.pair m := fun _ _ => rfl
    rcases of_mem_upsertAll hpair hm with ⟨hm, _⟩ | ⟨new, hmem, hpair, _⟩
    · exact hkeep _ (h.materializations m hm)
    · rw [List.mem_singleton.mp hmem] at hpair
      rw [← (Prod.mk.inj hpair).2]
      exact hnew hs
  | claimFunction | failFunction | publishFunction => exact ⟨hupdate fun _ => rfl, hcaps⟩
  | insertCapability row =>
    refine ⟨fun m hm => hkeep _ (h.materializations m hm), fun c hc => ?_⟩
    rcases List.mem_append.mp hc with hc | hc
    · exact hcaps c hc
    · rw [List.mem_singleton.mp hc]
      exact hnew hs
  | deleteCapabilities =>
    exact ⟨fun m hm => hkeep _ (h.materializations m hm),
      fun c hc => hcaps c (mem_deleteWhere.mp hc).1⟩
  | _ => exact ⟨fun m hm => hkeep _ (h.materializations m hm), hcaps⟩

theorem FunctionRows.effects (h : FunctionRows t) (hst : t.Stores a) {ss : List Statement}
    (hs : ∀ s ∈ ss, s.OfFunctions a) : FunctionRows (Irez.effects ss t) :=
  effects_stored h hst fun s hmem _ h hst => h.effect hst (hs s hmem)

/-- A publish whose `function_id` is its target's handle. -/
theorem FunctionRows.published (h : FunctionRows t) (hi : Identified t)
    (hc : Keyed Artifact.id t.artifacts) {p : Publish} (hst : t.Stores p.target.artifact)
    (hn : p.target.Named) (hp : ∀ e ∈ p.entities, NamesKind e.kind e.localKey) :
    FunctionRows (p.replaced t) ∧ FunctionRows (p.published t) := by
  obtain ⟨⟨hi₁, hst₁⟩, _⟩ := hi.published hst hp
  have hc₁ : Keyed Artifact.id (p.replaced t).artifacts := by
    have ht : p.replaced t = _ := p.replaceStatements_effect t
    rw [ht]
    exact hc
  have hfunction : p.functionId (p.localIds (p.replaced t)) =
      entityId p.target.artifact (functionLocal p.target.key) :=
    (Publish.functionId_eq hi₁ hc₁ hst₁ hn).trans hn
  have h₁ : FunctionRows (p.replaced t) :=
    h.effects hst (forall_replaceStatements.mpr ⟨trivial, trivial, trivial, fun _ _ => trivial⟩)
  refine ⟨h₁, h₁.effects hst₁ (Publish.forall_writeStatements.mpr ⟨fun _ _ _ => trivial,
    fun _ _ => trivial, fun _ _ => trivial, trivial, trivial, fun c _ => ?_, trivial, trivial⟩)⟩
  exact ⟨p.target.key, hfunction⟩

end FunctionRows

/-! ## 2. In every state reached -/

section Reachable

variable {db db' db₁ : Database} {a : Artifact}

theorem FunctionRows.claimFunction {io : Faults} {d : ClaimDraw} {target : Target}
    (h : FunctionRows db.toTables) (hst : db.Stores target.artifact)
    (hc : Irez.claimFunction io d target db = .ok db₁) : FunctionRows db₁.toTables := by
  obtain ⟨run, _, ht⟩ := claimFunction_effects hc
  rw [ht]
  refine h.effects hst ?_
  exact List.forall_mem_cons.mpr ⟨trivial, List.forall_mem_singleton.mpr trivial⟩

theorem FunctionRows.finish {env : Environment} {target : Target} {d : MaterializeDraw}
    {outcome : Outcome} {result : Except Thrown Materialized} (h : FunctionRows db.toTables)
    (hi : Identified db.toTables) (hst : db.Stores target.artifact) (hn : target.Named)
    (ho : ∀ records, outcome = .ok records → firstError records = none →
      ∀ e ∈ entityRecords records, NamesKind e.kind e.localKey)
    (hf : Irez.finish env target d outcome db = (db', result)) : FunctionRows db'.toTables := by
  have hfail : ∀ e, failWith env.failure target d e db = (db', result) → FunctionRows db'.toTables := by
    intro e he
    unfold failWith at he
    split at he
    · rename_i db₂ h₂
      cases he
      rw [transaction_ok h₂]
      exact h.effects hst (forall_failFunctionStatements.mpr ⟨trivial, trivial⟩)
    · cases he
      exact h
  unfold Irez.finish at hf
  split at hf
  · exact hfail _ hf
  · rename_i records haccept
    obtain ⟨hout, hnone⟩ := accept_ok haccept
    split at hf
    · exact hfail _ hf
    · rename_i db₂ hpub
      cases hf
      obtain ⟨_, _, _, _, _, ht⟩ := Publish.exec_ok hpub
      rw [ht]
      exact (h.published hi db.constraints.artifactKey
        (p := .of target d.claim.runId d.claim.owner d.publish records) hst hn
        (ho records hout hnone)).2

theorem FunctionRows.finishCatalog {env : Environment} {d : CatalogDraw} {outcome : Outcome}
    {result : Except Thrown Unit} (h : FunctionRows db.toTables) (hst : db.Stores a)
    (hf : Irez.finishCatalog env a d outcome db = (db', result)) : FunctionRows db'.toTables := by
  have hfail : ∀ e, failCatalogWith env.failure a.id d e db = (db', result) →
      FunctionRows db'.toTables := by
    intro e he
    unfold failCatalogWith at he
    split at he
    · rename_i db₂ h₂
      cases he
      rw [transaction_ok h₂]
      exact h.effects hst (forall_failCatalogStatements.mpr ⟨trivial, trivial⟩)
    · cases he
      exact h
  unfold Irez.finishCatalog at hf
  split at hf
  · exact hfail _ hf
  · split at hf
    · cases hf
      exact h
    · split at hf
      · exact hfail _ hf
      · rename_i db₂ hpub
        cases hf
        rw [transaction_ok hpub]
        exact h.effects hst (forall_publishCatalogStatements.mpr
          ⟨trivial, fun f _ => ⟨trivial, ⟨f.key, rfl⟩, trivial⟩, trivial⟩)

theorem FunctionRows.step (h : FunctionRows db.toTables) (hi : Identified db.toTables)
    (hstep : Step AdapterAnswers db db') : FunctionRows db'.toTables := by
  cases hstep with
  | @store io row _ _ _ he =>
    rw [exec_ok he]
    have hgrown : ∀ {id}, db.NamesFunction id →
        ((Statement.insertArtifact row).effect db.toTables).NamesFunction id := fun hid => hid.effect _
    exact ⟨fun m hm => hgrown (h.materializations m hm), fun c hc => hgrown (h.capabilities c hc)⟩
  | @catalog env graph d a index _ _ result ha hr =>
    unfold refreshCatalog at hr
    split at hr
    · cases hr
      exact h
    · rename_i db₁ hc
      obtain ⟨run, _, h₁⟩ := claimCatalog_effects hc
      have hst : db.Stores a := ⟨a, ha, rfl, rfl⟩
      have hrows₁ : FunctionRows db₁.toTables := by
        rw [h₁]
        refine h.effects hst (List.forall_mem_cons.mpr ⟨trivial, ?_⟩)
        exact List.forall_mem_cons.mpr ⟨trivial, List.forall_mem_singleton.mpr trivial⟩
      have hst₁ : db₁.Stores a := by
        rw [h₁]
        exact hst.effects _
      exact hrows₁.finishCatalog hst₁ hr
  | @materialize env graph d handle refresh _ _ result hg hm =>
    unfold materialize at hm
    split at hm
    · cases hm
      exact h
    · cases hm
      exact h
    · rename_i target hent
      split at hm
      · cases hm
        exact h
      · rename_i db₁ hc
        obtain ⟨hst, hn, _, _⟩ := hi.enter db.constraints hent
        have hi₁ : Identified db₁.toTables := by
          obtain ⟨_, _, _, _, h₁⟩ := claimFunction_ok hc
          rw [h₁]
          exact ⟨hi.artifacts, hi.entities, hi.functions⟩
        exact (h.claimFunction hst hc).finish hi₁ (claimFunction_stores hc hst) hn
          (fun records hr hnone => (hg target hent).namesKind hr hnone) hm

/-- **In every state reached** rows of `materializations` and of capabilities are about functions. -/
theorem Reachable.functionRows (h : Reachable AdapterAnswers db) : FunctionRows db.toTables := by
  obtain ⟨db₀, h₀, hrun⟩ := h
  have hboth : Identified db.toTables ∧ FunctionRows db.toTables := by
    induction hrun with
    | refl =>
      refine ⟨Identified.fresh h₀, ?_, ?_⟩
      · rw [h₀.materializations]
        exact fun m hm => absurd hm List.not_mem_nil
      · rw [h₀.capabilities]
        exact fun c hc => absurd hc List.not_mem_nil
    | tail _ hstep ih => exact ⟨ih.1.step hstep, ih.2.step ih.1 hstep⟩
  exact hboth.2

end Reachable

/-! ## 3. Statements that break no constraint -/

namespace Tables.Constraints

variable {t : Tables} {a : Artifact}

/-- Other rows of entities, among which everything referred to is found. -/
theorem withEntities (h : t.Constraints) {es : List Entity} (hkey : Keyed Entity.id es)
    (hlocal : Keyed Entity.localPair es) (hart : ∀ e ∈ es, e.artifactId ∈ t.artifactIds)
    (hrel : ∀ r ∈ t.relations, r.srcId ∈ es.map (·.id) ∧ r.dstId ∈ es.map (·.id))
    (hsrc : ∀ s ∈ t.sourceLocations, s.entityId ∈ es.map (·.id))
    (hmat : ∀ m ∈ t.materializations, m.functionId ∈ es.map (·.id))
    (hcap : ∀ c ∈ t.capabilities, c.functionId ∈ es.map (·.id)) :
    Tables.Constraints { t with entities := es } := by
  refine { h with
    entityKey := hkey, entityLocal := hlocal, entityRefs := hart
    relationRefs := fun r hr => ?_, sourceRefs := fun s hs => ?_
    materializationRefs := fun m hm => ?_, capabilityRefs := fun c hc => ?_ }
  · obtain ⟨h1, _, _, h4⟩ := h.relationRefs r hr
    exact ⟨h1, (hrel r hr).1, (hrel r hr).2, h4⟩
  · obtain ⟨h1, _, h3⟩ := h.sourceRefs s hs
    exact ⟨h1, hsrc s hs, h3⟩
  · obtain ⟨h1, _, h3⟩ := h.materializationRefs m hm
    exact ⟨h1, hmat m hm, h3⟩
  · exact ⟨hcap c hc, (h.capabilityRefs c hc).2⟩

/-- More rows, or the same rows in other columns. -/
theorem moreEntities (h : t.Constraints) {es : List Entity} (hkey : Keyed Entity.id es)
    (hlocal : Keyed Entity.localPair es) (hart : ∀ e ∈ es, e.artifactId ∈ t.artifactIds)
    (hids : ∀ id ∈ t.entityIds, id ∈ es.map (·.id)) :
    Tables.Constraints { t with entities := es } := by
  refine h.withEntities hkey hlocal hart (fun r hr => ?_) (fun s hs => ?_) (fun m hm => ?_)
    fun c hc => ?_
  · obtain ⟨_, hsrc, hdst, _⟩ := h.relationRefs r hr
    exact ⟨hids _ hsrc, hids _ hdst⟩
  · exact hids _ (h.sourceRefs s hs).2.1
  · exact hids _ (h.materializationRefs m hm).2.1
  · exact hids _ (h.capabilityRefs c hc).1

theorem updateEntities (h : t.Constraints) (p : Entity → Bool) {g : Entity → Entity}
    (hid : ∀ e, (g e).id = e.id) (hpair : ∀ e, Entity.localPair (g e) = Entity.localPair e) :
    Tables.Constraints { t with entities := updateWhere p g t.entities } := by
  refine h.moreEntities (h.entityKey.updateWhere hid) (Keyed.updateWhere h.entityLocal hpair)
    (fun e he => ?_) fun id hm => ?_
  · obtain ⟨e₀, he₀, rfl⟩ := mem_updateWhere.mp he
    split
    · rw [(Prod.mk.inj (hpair e₀)).1]
      exact h.entityRefs e₀ he₀
    · exact h.entityRefs e₀ he₀
  · rw [map_updateWhere hid]
    exact hm

/-- **An upsert under a handle of its key**: where no row has the key, none has the id. -/
theorem upsertEntity (h : t.Constraints) (hi : Identified t) (hst : t.Stores a) {row : Entity}
    (haid : row.artifactId = a.id) (hid : row.id = entityId a row.localKey)
    (hcolon : ':' ∈ row.localKey.toList) : ((Statement.upsertEntity row).effect t).Constraints := by
  by_cases hlook : (lookup Entity.localPair (Entity.localPair row) t.entities).isSome
  · have hrows : (Statement.upsertEntity row).effect t = { t with
        entities := updateWhere (fun e => Entity.localPair e = Entity.localPair row)
          (Entity.restructure row) t.entities } := by
      simp only [Statement.effect, upsert, hlook, if_true]
    rw [hrows]
    exact h.updateEntities _ (fun _ => rfl) fun _ => rfl
  · have hrows : (Statement.upsertEntity row).effect t = { t with entities := t.entities ++ [row] } := by
      simp only [Statement.effect, upsert, hlook, Bool.false_eq_true, if_false]
    have hnone : lookup Entity.localPair (Entity.localPair row) t.entities = none := by
      simpa using hlook
    rw [hrows]
    refine h.moreEntities (h.entityKey.append_singleton ?_) (Keyed.append_singleton h.entityLocal hnone)
      (fun e he => ?_) fun id hm => ?_
    · refine lookup_eq_none_iff.mpr fun e he hsame => ?_
      obtain ⟨hart, hkey⟩ := hi.localKey_of_id hst he hcolon (hsame.trans hid)
      exact lookup_eq_none_iff.mp hnone e he (Prod.ext (hart.trans haid.symm) hkey)
    · rcases List.mem_append.mp he with he | he
      · exact h.entityRefs e he
      · obtain ⟨b, hb, hbid, _⟩ := hst
        rw [List.mem_singleton.mp he, haid, ← hbid]
        exact List.mem_map_of_mem hb
    · rw [List.map_append]
      exact List.mem_append_left _ hm

theorem deleteRelations (h : t.Constraints) (f : String) :
    ((Statement.deleteRelations f).effect t).Constraints :=
  { h with relationRefs := fun r hr => h.relationRefs r (mem_deleteWhere.mp hr).1 }

theorem deleteSourceLocations (h : t.Constraints) (f : String) :
    ((Statement.deleteSourceLocations f).effect t).Constraints :=
  { h with
    sourceRefs := fun s hs => h.sourceRefs s (mem_deleteWhere.mp hs).1
    sourceDepth := fun s hs => h.sourceDepth s (mem_deleteWhere.mp hs).1 }

/-- **Behind the deletes of what refers to them, the entities of a function can go.** -/
theorem deleteEntities (h : t.Constraints) (hi : Identified t) (hf : FunctionRows t) {f : String}
    (hrel : ∀ r ∈ t.relations, r.srcId ∉ t.owned f ∧ r.dstId ∉ t.owned f)
    (hsrc : ∀ s ∈ t.sourceLocations, s.entityId ∉ t.owned f) :
    ((Statement.deleteEntities f).effect t).Constraints := by
  have hkeep : ∀ id ∈ t.entityIds, id ∉ t.owned f →
      id ∈ (deleteWhere (fun e => e.functionId = some f && e.id ≠ f) t.entities).map (·.id) := by
    intro id hid hown
    obtain ⟨e, he, rfl⟩ := List.mem_map.mp hid
    refine List.mem_map_of_mem (mem_deleteWhere.mpr ⟨he, ?_⟩)
    have hfree : e.functionId ≠ some f := fun ho =>
      hown (List.mem_map_of_mem (List.mem_filter.mpr ⟨he, decide_eq_true ho⟩))
    simp [hfree]
  -- the row of a function has no owner
  have hfunction : ∀ id, t.NamesFunction id → id ∉ t.owned f := by
    intro id hnames hown
    obtain ⟨a, hst, key, hkey⟩ := hnames
    obtain ⟨e, he, rfl⟩ := List.mem_map.mp hown
    obtain ⟨he, ho⟩ := List.mem_filter.mp he
    obtain ⟨_, hl⟩ := hi.localKey_of_id hst he (colon_mem_functionLocal key) hkey
    have hnone := hi.functions e he ((hi.entities e he).2.2.mpr ⟨key, hl⟩)
    rw [hnone] at ho
    exact absurd ho (by simp)
  refine h.withEntities (h.entityKey.deleteWhere _) (Keyed.deleteWhere h.entityLocal _)
    (fun e he => h.entityRefs e (mem_deleteWhere.mp he).1) (fun r hr => ?_) (fun s hs => ?_)
    (fun m hm => ?_) fun c hc => ?_
  · obtain ⟨_, hsrcId, hdstId, _⟩ := h.relationRefs r hr
    exact ⟨hkeep _ hsrcId (hrel r hr).1, hkeep _ hdstId (hrel r hr).2⟩
  · exact hkeep _ (h.sourceRefs s hs).2.1 (hsrc s hs)
  · exact hkeep _ (h.materializationRefs m hm).2.1 (hfunction _ (hf.materializations m hm))
  · exact hkeep _ (h.capabilityRefs c hc).1 (hfunction _ (hf.capabilities c hc))

theorem insertRelation (h : t.Constraints) {row : Relation} (hart : row.artifactId ∈ t.artifactIds)
    (hsrc : row.srcId ∈ t.entityIds) (hdst : row.dstId ∈ t.entityIds)
    (hrun : Refers row.analysisRunId t.runIds) : ((Statement.insertRelation row).effect t).Constraints := by
  refine { h with relationRefs := fun r hr => ?_ }
  rcases List.mem_append.mp hr with hr | hr
  · exact h.relationRefs r hr
  · rw [List.mem_singleton.mp hr]
    exact ⟨hart, hsrc, hdst, hrun⟩

theorem insertSourceLocation (h : t.Constraints) {row : SourceLocation}
    (hart : row.artifactId ∈ t.artifactIds) (hentity : row.entityId ∈ t.entityIds)
    (hrun : Refers row.analysisRunId t.runIds) (hdepth : row.inlineDepth.isSome) :
    ((Statement.insertSourceLocation row).effect t).Constraints := by
  refine { h with sourceRefs := fun s hs => ?_, sourceDepth := fun s hs => ?_ }
  · rcases List.mem_append.mp hs with hs | hs
    · exact h.sourceRefs s hs
    · rw [List.mem_singleton.mp hs]
      exact ⟨hart, hentity, hrun⟩
  · rcases List.mem_append.mp hs with hs | hs
    · exact h.sourceDepth s hs
    · rw [List.mem_singleton.mp hs]
      exact hdepth

theorem deleteCapabilities (h : t.Constraints) (f : String) :
    ((Statement.deleteCapabilities f).effect t).Constraints :=
  { h with
    capabilityKey := h.capabilityKey.deleteWhere _
    capabilityRefs := fun c hc => h.capabilityRefs c (mem_deleteWhere.mp hc).1 }

theorem insertCapability (h : t.Constraints) {row : Capability}
    (hnew : ∀ c ∈ t.capabilities, (c.functionId, c.capability) ≠ (row.functionId, row.capability))
    (hfunction : row.functionId ∈ t.entityIds) (hrun : row.analysisRunId ∈ t.runIds) :
    ((Statement.insertCapability row).effect t).Constraints := by
  refine { h with
    capabilityKey := h.capabilityKey.append_singleton (lookup_eq_none_iff.mpr hnew)
    capabilityRefs := fun c hc => ?_ }
  rcases List.mem_append.mp hc with hc | hc
  · exact h.capabilityRefs c hc
  · rw [List.mem_singleton.mp hc]
    exact ⟨hfunction, hrun⟩

theorem publishFunction (h : t.Constraints) {run : String} (hrun : run ∈ t.runIds) (f owner : String) :
    ((Statement.publishFunction run f owner).effect t).Constraints := by
  refine { h with
    materializationKey := h.materializationKey.updateWhere fun _ => rfl
    materializationRefs := fun m hm => ?_ }
  obtain ⟨m₀, hm₀, rfl⟩ := mem_updateWhere.mp hm
  obtain ⟨h1, h2, h3⟩ := h.materializationRefs m₀ hm₀
  split
  · exact ⟨h1, h2, refers_some.mpr hrun⟩
  · exact ⟨h1, h2, h3⟩

end Tables.Constraints

/-! ## 4. Rows that refer to what is there -/

/-- The tables have the same ids to refer to. -/
structure SameIds (t t' : Tables) : Prop where
  artifacts : t'.artifactIds = t.artifactIds
  entities : t'.entityIds = t.entityIds
  runs : t'.runIds = t.runIds

/-- The statement keeps the ids of the tables, and the rows it writes refer to them. -/
def Statement.Referring (t : Tables) : Statement → Prop
  | .setOwner .. | .markEntity .. | .deleteCapabilities _ | .endRun .. => True
  | .insertRelation row => row.artifactId ∈ t.artifactIds ∧ row.srcId ∈ t.entityIds ∧
    row.dstId ∈ t.entityIds ∧ Refers row.analysisRunId t.runIds
  | .insertSourceLocation row => row.artifactId ∈ t.artifactIds ∧ row.entityId ∈ t.entityIds ∧
    Refers row.analysisRunId t.runIds ∧ row.inlineDepth.isSome
  | .publishFunction run _ _ => run ∈ t.runIds
  | _ => False

section SameIds

variable {t t' : Tables}

theorem SameIds.updateEntities (h : SameIds t t') (p : Entity → Bool) {g : Entity → Entity}
    (hid : ∀ e, (g e).id = e.id) :
    SameIds t { t' with entities := updateWhere p g t'.entities } where
  artifacts := h.artifacts
  entities := (map_updateWhere hid t'.entities).trans h.entities
  runs := h.runs

/-- **Such a statement keeps the constraints.** -/
theorem Statement.Referring.effect {s : Statement} (hs : s.Referring t) (hc : t'.Constraints)
    (h : SameIds t t') : (s.effect t').Constraints ∧ SameIds t (s.effect t') := by
  cases s with
  | setOwner f b id =>
    exact ⟨hc.updateEntities _ (fun _ => rfl) fun _ => rfl, h.updateEntities _ fun _ => rfl⟩
  | markEntity state id =>
    exact ⟨hc.updateEntities _ (fun _ => rfl) fun _ => rfl, h.updateEntities _ fun _ => rfl⟩
  | deleteCapabilities f => exact ⟨hc.deleteCapabilities f, h.artifacts, h.entities, h.runs⟩
  | endRun id status endedAt error =>
    refine ⟨hc.endRun id status endedAt error, h.artifacts, h.entities, ?_⟩
    exact (map_updateWhere (f := Run.id) (g := Run.ended status endedAt error) (fun _ => rfl)
      t'.runs).trans h.runs
  | insertRelation row =>
    obtain ⟨hart, hsrc, hdst, hrun⟩ := hs
    rw [← h.artifacts] at hart
    rw [← h.entities] at hsrc hdst
    rw [← h.runs] at hrun
    exact ⟨hc.insertRelation hart hsrc hdst hrun, h.artifacts, h.entities, h.runs⟩
  | insertSourceLocation row =>
    obtain ⟨hart, hentity, hrun, hdepth⟩ := hs
    rw [← h.artifacts] at hart
    rw [← h.entities] at hentity
    rw [← h.runs] at hrun
    exact ⟨hc.insertSourceLocation hart hentity hrun hdepth, h.artifacts, h.entities, h.runs⟩
  | publishFunction run f owner =>
    have hrun : run ∈ t'.runIds := by
      rw [h.runs]
      exact hs
    exact ⟨hc.publishFunction hrun f owner, h.artifacts, h.entities, h.runs⟩
  | _ => exact absurd hs not_false

theorem Unbroken.of_referring (ss : List Statement) (hc : t'.Constraints) (h : SameIds t t')
    (hs : ∀ s ∈ ss, s.Referring t) :
    Unbroken ss t' ∧ (effects ss t').Constraints ∧ SameIds t (effects ss t') :=
  Unbroken.of_kept ss (I := fun t' => t'.Constraints ∧ SameIds t t') ⟨hc, h⟩ (fun _ h => h.1)
    fun s hmem _ h => (hs s hmem).effect h.1 h.2

/-- Capabilities of one function, under names that are its own, where it has none. -/
theorem Unbroken.insertCapabilities {f : String} (cs : List Capability) (hc : t'.Constraints)
    (h : SameIds t t') (hf : f ∈ t.entityIds) (hrows : ∀ c ∈ cs, c.functionId = f ∧
      c.analysisRunId ∈ t.runIds) (hnodup : (cs.map (·.capability)).Nodup)
    (hnew : ∀ c ∈ t'.capabilities, c.functionId = f → c.capability ∉ cs.map (·.capability)) :
    Unbroken (cs.map .insertCapability) t' ∧
      (effects (cs.map .insertCapability) t').Constraints ∧
      SameIds t (effects (cs.map .insertCapability) t') := by
  induction cs generalizing t' with
  | nil => exact ⟨trivial, hc, h⟩
  | cons row cs ih =>
    obtain ⟨hfunction, hrun⟩ := hrows row List.mem_cons_self
    obtain ⟨hrow, hnodup⟩ := List.nodup_cons.mp hnodup
    have hc₁ : ((Statement.insertCapability row).effect t').Constraints := by
      refine hc.insertCapability (fun c hcm hpair => ?_) ?_ ?_
      · obtain ⟨hcf, hname⟩ := Prod.mk.inj hpair
        refine hnew c hcm (hcf.trans hfunction) ?_
        rw [hname]
        exact List.mem_cons_self
      · rw [h.entities, hfunction]
        exact hf
      · rw [h.runs]
        exact hrun
    have hrest := @ih ((Statement.insertCapability row).effect t') hc₁
      ⟨h.artifacts, h.entities, h.runs⟩ (fun c hcm => hrows c (List.mem_cons_of_mem _ hcm)) hnodup
      fun c hcm hcf => by
        rcases List.mem_append.mp hcm with hcm | hcm
        · intro hname
          exact hnew c hcm hcf (List.mem_cons_of_mem _ hname)
        · rw [List.mem_singleton.mp hcm]
          exact hrow
    exact ⟨⟨hc₁, hrest.1⟩, hrest.2⟩

end SameIds

/-! ## 5. A publish whose checks pass -/

/-- What a publish needs of the tables it runs on and of its stream, beside its checks. -/
structure Publish.Admissible (p : Publish) (t : Tables) : Prop where
  identified : Identified t
  functions : FunctionRows t
  stores : t.Stores p.target.artifact
  named : p.target.Named
  function : p.target.handle ∈ t.entityIds
  run : p.run ∈ t.runIds
  kinds : ∀ e ∈ p.entities, NamesKind e.kind e.localKey
  depths : ∀ q ∈ p.sources, q.inlineDepth.isSome

theorem checkEndpoints_of {ids : String → Option String} {what : String} {locals : List String}
    (h : ∀ l ∈ locals, ∃ i, ids l = some i) : checkEndpoints ids what locals = .ok () := by
  have hnone : (locals.find? fun l => (ids l).isNone) = none := by
    refine List.find?_eq_none.mpr fun l hl => ?_
    obtain ⟨i, hi⟩ := h l hl
    simp [hi]
  unfold checkEndpoints
  rw [hnone]

namespace Publish

variable {p : Publish} {t : Tables}

theorem Resolved.relations_ok (hr : p.Resolved t) :
    checkEndpoints (p.localIds (p.replaced t)) "relation"
      (p.relations.flatMap fun r => [r.src, r.dst]) = .ok () := by
  refine checkEndpoints_of fun l hl => ?_
  obtain ⟨r, hrm, hl⟩ := List.mem_flatMap.mp hl
  obtain ⟨hsrc, hdst⟩ := hr.relations r hrm
  simp only [List.mem_cons, List.not_mem_nil, or_false] at hl
  rcases hl with rfl | rfl
  · exact hsrc
  · exact hdst

theorem Resolved.sources_ok (hr : p.Resolved t) :
    checkEndpoints (p.localIds (p.replaced t)) "source" (p.sources.map (·.entity)) = .ok () := by
  refine checkEndpoints_of fun l hl => ?_
  obtain ⟨q, hq, rfl⟩ := List.mem_map.mp hl
  exact hr.sources q hq

/-- First what refers to the entities of the function goes, then the entities. -/
theorem Admissible.deletes (h : p.Admissible t) (hc : t.Constraints) :
    Unbroken [.deleteRelations p.target.handle, .deleteSourceLocations p.target.handle,
      .deleteEntities p.target.handle] t := by
  have hc₁ := hc.deleteRelations p.target.handle
  have hc₂ := hc₁.deleteSourceLocations p.target.handle
  have hi₂ : Identified (effects [.deleteRelations p.target.handle,
      .deleteSourceLocations p.target.handle] t) :=
    h.identified.effects h.stores (List.forall_mem_cons.mpr ⟨trivial,
      List.forall_mem_singleton.mpr trivial⟩)
  have hf₂ : FunctionRows (effects [.deleteRelations p.target.handle,
      .deleteSourceLocations p.target.handle] t) :=
    h.functions.effects h.stores (List.forall_mem_cons.mpr ⟨trivial,
      List.forall_mem_singleton.mpr trivial⟩)
  refine ⟨hc₁, hc₂, hc₂.deleteEntities hi₂ hf₂ (fun r hr => ?_) fun s hs => ?_, trivial⟩
  · have hkept := (mem_deleteWhere.mp hr).2
    simp only [Bool.or_eq_false_iff, decide_eq_false_iff_not] at hkept
    exact ⟨hkept.1.2, hkept.2⟩
  · have hkept := (mem_deleteWhere.mp hs).2
    exact of_decide_eq_false hkept

/-- **The deletes, then the upserts**, each under the handle of its key. -/
theorem Admissible.replace (h : p.Admissible t) (hc : t.Constraints) :
    Unbroken (replaceStatements p.target p.entities) t ∧ (p.replaced t).Constraints := by
  have hc₃ := (h.deletes hc).2.2.1
  have hst₃ : (effects [.deleteRelations p.target.handle, .deleteSourceLocations p.target.handle,
      .deleteEntities p.target.handle] t).Stores p.target.artifact := h.stores.effects _
  have hi₃ : Identified (effects [.deleteRelations p.target.handle,
      .deleteSourceLocations p.target.handle, .deleteEntities p.target.handle] t) :=
    h.identified.effects h.stores (List.forall_mem_cons.mpr ⟨trivial,
      List.forall_mem_cons.mpr ⟨trivial, List.forall_mem_singleton.mpr trivial⟩⟩)
  obtain ⟨hupserts, hlast, _⟩ := Unbroken.of_kept
    (p.entities.map fun e => .upsertEntity (entityRow p.target.artifact e))
    (I := fun t => t.Constraints ∧ Identified t ∧ t.Stores p.target.artifact)
    ⟨hc₃, hi₃, hst₃⟩ (fun _ h => h.1) fun s hs t' h' => by
      obtain ⟨hc', hi', hst'⟩ := h'
      obtain ⟨e, he, rfl⟩ := List.mem_map.mp hs
      have hnames : (Statement.upsertEntity (entityRow p.target.artifact e)).Names
          p.target.artifact := ⟨rfl, rfl, h.kinds e he, rfl⟩
      exact ⟨hc'.upsertEntity hi' hst' rfl rfl (h.kinds e he).1, hi'.effect hst' hnames,
        hst'.effect _⟩
  refine ⟨(h.deletes hc).append hupserts, ?_⟩
  unfold replaced replaceStatements
  rw [effects_append]
  exact hlast

/-- The keys that `local_to_id` knows have rows. -/
theorem Admissible.ids_mem (h : p.Admissible t) (hc : t.Constraints) {l i : String}
    (hi : p.localIds (p.replaced t) l = some i) : i ∈ (p.replaced t).entityIds := by
  obtain ⟨⟨hi₁, hst₁⟩, _⟩ := h.identified.published h.stores h.kinds
  have hc₁ := (h.replace hc).2
  have hrow : ∀ {x : Entity}, x ∈ (p.replaced t).entities →
      x.localPair = (p.target.artifact.id, l) → entityId p.target.artifact l ∈
        (p.replaced t).entityIds := by
    intro x hx hpair
    obtain ⟨haid, hl⟩ := Prod.mk.inj hpair
    rw [← hl, ← hi₁.id_of_artifact hc₁.artifactKey hst₁ hx haid]
    exact List.mem_map_of_mem hx
  rw [localIds_eq hi₁ hc₁.artifactKey hst₁ hi]
  unfold localIds localToId at hi
  split at hi
  · rename_i hm
    obtain ⟨e, he, rfl⟩ := List.mem_map.mp hm
    have hpair : ∀ n y, Entity.localPair (Entity.restructure n y) = Entity.localPair y :=
      fun _ _ => rfl
    obtain ⟨x, hx⟩ := exists_lookup_upsertAll hpair (t := p.keptEntities t)
      (Or.inl (List.mem_map_of_mem (f := Entity.localPair)
        (List.mem_map_of_mem (f := entityRow p.target.artifact) he)))
    have hmem : x ∈ (p.replaced t).entities := by
      unfold replaced
      rw [p.replaceStatements_effect]
      exact mem_of_lookup hx
    exact hrow hmem (key_of_lookup hx)
  · split at hi
    · obtain ⟨x, hx, _⟩ := Option.map_eq_some_iff.mp hi
      exact hrow (mem_of_lookup hx) (key_of_lookup hx)
    · cases hi

/-- The row of the target is none of those the deletes take. -/
theorem Admissible.target_mem (h : p.Admissible t) (hc : t.Constraints) :
    p.target.handle ∈ (p.replaced t).entityIds := by
  obtain ⟨e, he, hid⟩ := List.mem_map.mp h.function
  have hkept : e ∈ p.keptEntities t := by
    refine mem_deleteWhere.mpr ⟨he, ?_⟩
    simp [hid]
  have hlook : lookup Entity.localPair e.localPair (p.keptEntities t) = some e :=
    lookup_self (Keyed.deleteWhere hc.entityLocal _) hkept
  have hrow : ∃ x, lookup Entity.localPair e.localPair (upsertAll Entity.localPair
      Entity.restructure p.rows (p.keptEntities t)) = some x ∧ x.id = e.id :=
    lookup_upsertAll_col (g := Entity.restructure) (fun _ _ => rfl) (fun _ _ => rfl) hlook
  obtain ⟨x, hx, hxid⟩ := hrow
  rw [← hid, ← hxid]
  unfold replaced Tables.entityIds
  rw [p.replaceStatements_effect]
  exact List.mem_map_of_mem (mem_of_lookup hx)

/-- What the rows of the stream refer to is in the tables. -/
structure Referenced (p : Publish) (ids : String → Option String) (t : Tables) : Prop where
  artifact : p.target.artifact.id ∈ t.artifactIds
  run : p.run ∈ t.runIds
  function : p.functionId ids ∈ t.entityIds
  relations : ∀ r ∈ p.relations, (p.relationRow ids r).srcId ∈ t.entityIds ∧
    (p.relationRow ids r).dstId ∈ t.entityIds
  sources : ∀ q ∈ p.sources, (p.sourceRow ids q).entityId ∈ t.entityIds

theorem Admissible.referenced (h : p.Admissible t) (hc : t.Constraints) (hr : p.Resolved t) :
    p.Referenced (p.localIds (p.replaced t)) (p.replaced t) := by
  obtain ⟨⟨hi₁, hst₁⟩, _⟩ := h.identified.published h.stores h.kinds
  have hc₁ := (h.replace hc).2
  have hend : ∀ {l}, (∃ i, p.localIds (p.replaced t) l = some i) →
      (p.localIds (p.replaced t) l).getD "" ∈ (p.replaced t).entityIds := by
    intro l hl
    obtain ⟨i, hi⟩ := hl
    rw [hi]
    exact h.ids_mem hc hi
  refine ⟨?_, ?_, ?_, fun r hrm => ⟨hend (hr.relations r hrm).1, hend (hr.relations r hrm).2⟩,
    fun q hq => hend (hr.sources q hq)⟩
  · obtain ⟨b, hb, hbid, _⟩ := hst₁
    rw [← hbid]
    exact List.mem_map_of_mem hb
  · unfold replaced
    rw [p.replaceStatements_effect]
    exact h.run
  · rw [functionId_eq hi₁ hc₁.artifactKey hst₁ h.named]
    exact h.target_mem hc

variable {ids : String → Option String}

/-- **The rows of the stream, the capabilities, the status, the end of the run.** -/
theorem Referenced.write (h : p.Referenced ids t) (hc : t.Constraints)
    (hdepths : ∀ q ∈ p.sources, q.inlineDepth.isSome) : Unbroken (p.writeStatements ids) t := by
  -- up to the old capabilities, the rows refer to what is there
  obtain ⟨hfirst, hc₂, hsame⟩ := Unbroken.of_referring (p.ownerStatements ids ++
      p.relations.map (fun r => .insertRelation (p.relationRow ids r)) ++
      p.sources.map (fun s => .insertSourceLocation (p.sourceRow ids s)) ++
      [.markEntity .structureReady (p.functionId ids), .deleteCapabilities (p.functionId ids)])
    hc (⟨rfl, rfl, rfl⟩ : SameIds t t) fun s hs => by
      simp only [List.mem_append, List.mem_map, List.mem_cons, List.not_mem_nil, or_false,
        ownerStatements] at hs
      rcases hs with ((⟨e, _, rfl⟩ | ⟨r, hrm, rfl⟩) | ⟨q, hq, rfl⟩) | rfl | rfl
      · trivial
      · obtain ⟨hsrc, hdst⟩ := h.relations r hrm
        exact ⟨h.artifact, hsrc, hdst, refers_some.mpr h.run⟩
      · exact ⟨h.artifact, h.sources q hq, refers_some.mpr h.run, hdepths q hq⟩
      · trivial
      · trivial
  -- then the function has no capability left
  obtain ⟨hcaps, hc₃, hsame⟩ := Unbroken.insertCapabilities
    (kMaterializationCapabilities.map (p.capabilityRow ids)) hc₂ hsame h.function
    (fun c hcm => by
      obtain ⟨k, _, rfl⟩ := List.mem_map.mp hcm
      exact ⟨rfl, h.run⟩)
    (by
      rw [List.map_map]
      exact kMaterializationCapabilities_names_nodup)
    (fun c hcm hcf => by
      rw [effects_append] at hcm
      exact absurd hcf (of_decide_eq_false (mem_deleteWhere.mp hcm).2))
  obtain ⟨hlast, _⟩ := Unbroken.of_referring [.publishFunction p.run (p.functionId ids) p.owner,
    .endRun p.run .success p.draw.endedAt none] hc₃ hsame
    (List.forall_mem_cons.mpr ⟨h.run, List.forall_mem_singleton.mpr trivial⟩)
  have hmap : kMaterializationCapabilities.map
      (fun c => Statement.insertCapability (p.capabilityRow ids c)) =
      (kMaterializationCapabilities.map (p.capabilityRow ids)).map .insertCapability := by
    rw [List.map_map]
    rfl
  unfold writeStatements
  rw [hmap]
  refine (hfirst.append hcaps).append ?_
  rw [effects_append]
  exact hlast

/-- **A publish whose checks pass commits.** -/
theorem Admissible.commits {db : Database} (h : p.Admissible db.toTables)
    (hlocals : checkLocals [] p.entities = .ok ()) (hrels : checkRelations p.relations = .ok ())
    (hr : p.Resolved db.toTables) : ∃ db', p.exec noFaults db = .ok db' := by
  obtain ⟨db₁, h₁⟩ := (h.replace db.constraints).1.execAll
  have ht : db₁.toTables = p.replaced db.toTables := execAll_ok h₁
  have hwrite := (h.referenced db.constraints hr).write (h.replace db.constraints).2 h.depths
  rw [← ht] at hwrite
  obtain ⟨db₂, h₂⟩ := hwrite.transaction
  have hends := hr.relations_ok
  have hsources := hr.sources_ok
  rw [← ht] at hends hsources
  refine ⟨db₂, ?_⟩
  unfold Publish.exec
  rw [hlocals, hrels, h₁]
  simp only [bind, Except.bind, hends, hsources]
  exact h₂

end Publish

end Irez
