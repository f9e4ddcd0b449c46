/-
  File:      Irez/Recovery.lean
  Subject:   Recovery converges: what a full index that refreshes the catalog leaves of an
             artifact depends on its content only (service.cpp 248-485, 670-964).

  The upserts of a catalog keep old columns, failures leave error columns, the relations and
  capabilities of an earlier analysis stay through a catalog, and `materialize` may answer from
  its cache. After the catalog of a full index none of this shows any more:

  * `Contents.Ready` -- a function that has been analysed after a catalog of its artifact;
  * `Conforms.materialize_ready`, `Conforms.materializeAll_ready` -- one call of the loop, and
    the loop: no call answers from the cache, and none undoes another's;
  * `Contents.Indexed`, `History.indexed` -- what the call leaves, in closed form;
  * `full_index_converges` -- two such states have the same rows of the artifact, up to the
    runs and the moments.
-/
import Irez.Evidence

open Irez.Basis

namespace Irez

/-- Two lists that agree in each part of a cover, under covers of their own, have the same
    members as often. -/
theorem perm_of_parts {ι α : Type} [DecidableEq α] {l l' : List α} (part part' : ι → α → Bool)
    (h : ∀ i, l.filter (part i) = l'.filter (part' i)) (hl : ∀ x ∈ l, ∃ i, part i x = true)
    (hl' : ∀ x ∈ l', ∃ i, part' i x = true) : l.Perm l' := by
  have hle : ∀ {m m' : List α} (q q' : ι → α → Bool), (∀ i, m.filter (q i) = m'.filter (q' i)) →
      (∀ x ∈ m, ∃ i, q i x = true) → ∀ x, m.count x ≤ m'.count x := by
    intro m m' q q' hq hm x
    by_cases hx : x ∈ m
    · obtain ⟨i, hi⟩ := hm x hx
      calc m.count x = (m.filter (q i)).count x := (List.count_filter hi).symm
        _ = (m'.filter (q' i)).count x := by rw [hq]
        _ ≤ m'.count x := List.Sublist.count_le x List.filter_sublist
    · rw [List.count_eq_zero_of_not_mem hx]
      exact Nat.zero_le _
  refine List.perm_iff_count.mpr fun x => Nat.le_antisymm (hle part part' h hl x) ?_
  exact hle part' part (fun i => (h i).symm) hl' x

/-! ## 1. Rows without their runs -/

/-- The row, whichever run wrote it. -/
def Relation.unrun (r : Relation) : Relation := { r with analysisRunId := none }

def SourceLocation.unrun (s : SourceLocation) : SourceLocation := { s with analysisRunId := none }

def Materialization.unrun (m : Materialization) : Materialization := { m with analysisRunId := none }

def Capability.unrun (c : Capability) : Capability := { c with analysisRunId := "", completedAt := 0 }

/-- The columns of an artifact that depend on its content: not those of the file it was first
    read from, and not the run. -/
def Artifact.unrun (a : Artifact) : Artifact :=
  { a with
    investigationId := "", kind := "", storedPath := "", originalPath := "", mediaType := ""
    catalogRunId := none }

section Rows

variable (t : Tables) (id : String)

/-- The rows of one artifact. -/
def Tables.artifactRelations : List Relation := t.relations.filter (·.artifactId = id)

def Tables.artifactSources : List SourceLocation := t.sourceLocations.filter (·.artifactId = id)

def Tables.artifactMaterializations : List Materialization :=
  t.materializations.filter (·.artifactId = id)

def Tables.artifactCapabilities : List Capability :=
  t.capabilities.filter fun c => t.entities.any fun e => e.id = c.functionId && e.artifactId = id

end Rows

/-- **Two states hold the same of an artifact**, up to the runs and the moments, the columns that
    come from the file it was first read from, and the order of the rows. -/
structure SameEvidence (t t' : Tables) (id : String) : Prop where
  artifact : (t.artifact id).map Artifact.unrun = (t'.artifact id).map Artifact.unrun
  entities : ∀ x : Entity, x.artifactId = id → (x ∈ t.entities ↔ x ∈ t'.entities)
  relations : ((t.artifactRelations id).map Relation.unrun).Perm
    ((t'.artifactRelations id).map Relation.unrun)
  sources : ((t.artifactSources id).map SourceLocation.unrun).Perm
    ((t'.artifactSources id).map SourceLocation.unrun)
  materializations : ((t.artifactMaterializations id).map Materialization.unrun).Perm
    ((t'.artifactMaterializations id).map Materialization.unrun)
  capabilities : ((t.artifactCapabilities id).map Capability.unrun).Perm
    ((t'.artifactCapabilities id).map Capability.unrun)

/-! ## 2. Functions analysed after a catalog -/

namespace FunctionRecord

variable (f : FunctionRecord) (a : Artifact)

/-- The row of a function that was analysed after a catalog. -/
def readyRow (run : String) : Materialization := (f.materializationRow a).published run

end FunctionRecord

/-- The entity of an analysed function. -/
def Function.readyFace (F : Function) (a : Artifact) (K : Nat) : Entity :=
  (catalogEntry F K).faceRow a [] (some F.text) .structureReady

/-- **The function has been analysed after a catalog.** -/
def Contents.Ready (C : Contents) (t : Tables) (a : Artifact) (K : Nat) (F : Function) : Prop :=
  ∃ run, C.Holds t a K F (F.readyFace a K) ((catalogEntry F K).readyRow a run)

/-- An artifact is stored under each of its names. -/
theorem Tables.Stores.renamed {t : Tables} {a b : Artifact} (h : t.Stores a) (hid : a.id = b.id)
    (hsha : a.contentSha256 = b.contentSha256) : t.Stores b := by
  obtain ⟨x, hx, hxid, hxsha⟩ := h
  exact ⟨x, hx, hxid.trans hid, hxsha.trans hsha⟩

section Loop

variable {C : Contents} {a : Artifact} {K : Nat} {F : Function} {db db' : Database}
  {env : Environment} {graph : String → String → Outcome}

/-- A call without `refresh` that claims nothing finds a ready row, or a declaration's. -/
theorem enter_answered {t : Tables} {handle : String} {response : Materialized}
    {m : Materialization} (hm : t.materialization handle = some m)
    (h : enter t handle false = .ok (.answered response)) :
    m.status = .structureReady ∨ m.status = .declarationOnly := by
  unfold enter at h
  split at h
  · cases h
  · split at h
    · cases h
    · dsimp only at h
      rw [hm, Option.any_some, Option.any_some] at h
      split at h
      · rename_i hcurrent
        refine .inl ?_
        simp only [Bool.not_false, Bool.true_and, cacheCurrent, Bool.and_eq_true,
          decide_eq_true_eq] at hcurrent
        exact hcurrent.1.1.1.1
      · split at h
        · rename_i hstatus
          exact .inr (of_decide_eq_true hstatus)
        · cases h

/-- The row of a defined function after a catalog: its status and its fingerprint. -/
theorem recatalogued_row {m : Materialization} (hd : F.isDeclaration = false)
    (h : m = (catalogEntry F K).materializationRow a ∨
      ∃ old, m = Materialization.recatalog ((catalogEntry F K).materializationRow a) old) :
    m.status = .catalogOnly ∧
      m.bodyFingerprint = ((catalogEntry F K).materializationRow a).bodyFingerprint := by
  have hstatus : ((catalogEntry F K).materializationRow a).status = .catalogOnly := by
    unfold FunctionRecord.materializationRow catalogEntry
    rw [hd]
    rfl
  rcases h with rfl | ⟨old, rfl⟩
  · exact ⟨hstatus, rfl⟩
  · exact ⟨hstatus, rfl⟩

/-- **One call of the loop**: a function that a catalog has reset is analysed, and the others
    stand as before. -/
theorem Conforms.materialize_ready (h : Conforms C db.toTables) (hu : C.Unambiguous)
    (hK : C.Recatalogued db.toTables a K F) (hd : F.isDeclaration = false) {d : MaterializeDraw}
    {handle : String} (hid : handle = entityId a (functionLocal (functionKey K)))
    (hg : ∀ target, Irez.enter db.toTables handle false = .ok (.analyse target) →
      C.Analyses target (graph target.artifact.storedPath target.key))
    {response : Materialized}
    (hm : Irez.materialize env graph d handle false db = (db', .ok response)) :
    Conforms C db'.toTables ∧ C.Ready db'.toTables a K F ∧
      ∀ b J G x m, C.Holds db.toTables b J G x m → x.id ≠ handle →
        C.Holds db'.toTables b J G x m := by
  obtain ⟨text, m, hh, hrow⟩ := hK.stands
  obtain ⟨hstatus, hprint⟩ := recatalogued_row hd hrow
  have hfind : db.materialization handle = some m := by
    rw [hid, ← hh.cols.1]
    exact h.materialization_eq db.constraints hh
  have hpublished : ∃ run n k, response = .published run n k := by
    cases materialize_run hm with
    | answered hent =>
      rcases enter_answered hfind hent with hready | hdecl
      · rw [hstatus] at hready
        cases hready
      · rw [hstatus] at hdecl
        cases hdecl
    | published => exact ⟨_, _, _, rfl⟩
  obtain ⟨run, n, k, rfl⟩ := hpublished
  obtain ⟨b, J, G, e, m', hold, he, _, hconf, hnew, hothers⟩ := h.analysed hu hg hm
  refine ⟨hconf, ⟨run, ?_⟩, hothers⟩
  -- the function analysed is the one the handle names
  obtain ⟨hba, hsha, hkey⟩ := h.handle_inj db.constraints hh.stores hold.stores
    (colon_mem_functionLocal (functionKey K)) (colon_mem_functionLocal (functionKey J))
    (hid.symm.trans (he.symm.trans hold.cols.1))
  obtain rfl : K = J := functionKey_inj (functionLocal_inj hkey)
  have hnew := hnew.congr (hnew.stores.renamed hba.symm hsha.symm) hba.symm hsha.symm
  have hF : G = F := Option.some.inj
    ((hold.function.symm.trans (congrArg (fun i => (C.module i).functions[K]?) hba.symm)).trans
      hh.function)
  subst hF
  obtain rfl : m' = m := h.row_unique db.constraints hold.row hh.row
    (hold.handle.trans ((he.trans hid).trans (hh.cols.1.symm.trans hh.handle.symm)))
  have hface : (catalogEntry G K).faceRow b [] (some G.text) .structureReady = G.readyFace a K :=
    FunctionRecord.faceRow_congr hba.symm hsha.symm _ _ _ _
  have hready : Materialization.published run
      (Materialization.claimed d.claim.owner d.claim.claimedAt m') =
      (catalogEntry G K).readyRow a run := by
    have hart : m'.artifactId = a.id := hh.artifact
    have hfun : m'.functionId = (catalogEntry G K).handle a := hh.handle.trans hh.cols.1
    unfold FunctionRecord.readyRow Materialization.published Materialization.claimed
    rw [hart, hfun, hprint]
    rfl
  rw [hface, hready] at hnew
  exact hnew

/-- **The loop**: where a catalog has reset the functions it goes over, each is analysed. -/
theorem Conforms.materializeAll_ready {adapter : Adapter} {draw : String → MaterializeDraw}
    {handles : List String} (h : Conforms C db.toTables) (hu : C.Unambiguous)
    (hans : C.Answered db.toTables adapter) (hn : handles.Nodup)
    (hK : ∀ handle ∈ handles, ∃ K F, handle = entityId a (functionLocal (functionKey K)) ∧
      F.isDeclaration = false ∧ C.Recatalogued db.toTables a K F)
    (hm : Irez.materializeAll env adapter.functionGraph draw handles db = (db', .ok ())) :
    Conforms C db'.toTables ∧ db'.artifacts = db.artifacts ∧
      (∀ K F, (C.module a.id).functions[K]? = some F →
        entityId a (functionLocal (functionKey K)) ∈ handles → C.Ready db'.toTables a K F) ∧
      ∀ b J G x m, C.Holds db.toTables b J G x m → x.id ∉ handles →
        C.Holds db'.toTables b J G x m := by
  induction handles generalizing db with
  | nil =>
    cases hm
    exact ⟨h, rfl, fun K F _ hmem => absurd hmem List.not_mem_nil, fun _ _ _ _ _ hh _ => hh⟩
  | cons handle rest ih =>
    unfold Irez.materializeAll at hm
    split at hm
    · cases hm
    · rename_i db₁ response hone
      obtain ⟨hnot, hn⟩ := List.nodup_cons.mp hn
      obtain ⟨K, F, hid, hd, hre⟩ := hK handle List.mem_cons_self
      obtain ⟨hconf, hready, hothers⟩ := h.materialize_ready hu hre hd hid
        (fun target hent => hans.graphs target (mem_of_lookup (enter_analyse hent).2.2)) hone
      have hfiles := materialize_files hone
      have hrest : ∀ handle' ∈ rest, ∃ K F, handle' = entityId a (functionLocal (functionKey K)) ∧
          F.isDeclaration = false ∧ C.Recatalogued db₁.toTables a K F := by
        intro handle' hmem
        obtain ⟨J, G, hid', hd', hre'⟩ := hK handle' (List.mem_cons_of_mem _ hmem)
        obtain ⟨text, m, hh, hrow⟩ := hre'.stands
        refine ⟨J, G, hid', hd', ⟨text, m, hothers _ _ _ _ _ hh fun heq => hnot ?_, hrow⟩⟩
        rw [← heq, hh.cols.1, ← hid']
        exact hmem
      have hstep := ih hconf (hans.of_files (congrArg (List.map Artifact.file) hfiles)) hn hrest hm
      obtain ⟨hconf', hfiles', hall, hkeep⟩ := hstep
      refine ⟨hconf', hfiles'.trans hfiles, fun J G hG hmem => ?_, fun b J G x m hh hx => ?_⟩
      · rcases List.mem_cons.mp hmem with heq | hmem
        · -- the head of the list, which no later call touches
          obtain ⟨run, hh⟩ := hready
          obtain rfl : J = K := functionKey_inj (functionLocal_inj (entityId_right_inj
            (colon_mem_functionLocal _) (colon_mem_functionLocal _) (heq.trans hid)))
          obtain rfl : G = F := Option.some.inj (hG.symm.trans hh.function)
          refine ⟨run, hkeep _ _ _ _ _ hh ?_⟩
          rw [hh.cols.1, ← hid]
          exact hnot
        · exact hall J G hG hmem
      · rw [List.mem_cons, not_or] at hx
        exact hkeep _ _ _ _ _ (hothers _ _ _ _ _ hh hx.1) hx.2

end Loop

/-! ## 3. A full index that refreshes the catalog -/

/-- The row of an artifact after a full index. -/
def Contents.indexedArtifact (C : Contents) (a : Artifact) (module : ModuleRecord) : Artifact :=
  { Artifact.published module ((capabilitiesRecord (catalog (C.module a.id))).getD []) a with
    catalogErrorJson := none, requestedIndexLevel := .full, completedIndexLevel := .full }

/-- **The artifact is indexed in full**: its row is that of its module, every function with a body
    is analysed, and every declaration is catalogued. -/
structure Contents.Indexed (C : Contents) (t : Tables) (a : Artifact) : Prop where
  conforms : Conforms C t
  constraints : t.Constraints
  stores : t.Stores a
  ready : ∀ K F, (C.module a.id).functions[K]? = some F → F.isDeclaration = false → C.Ready t a K F
  declared : ∀ K F, (C.module a.id).functions[K]? = some F → F.isDeclaration = true →
    ∃ e m, C.Holds t a K F e m
  row : ∃ r module, t.artifact a.id = some r ∧
    moduleRecord (catalog (C.module a.id)) = some module ∧
    r.unrun = (C.indexedArtifact a module).unrun

section Index

variable {C : Contents} {a : Artifact} {db db' : Database} {env : Environment} {adapter : Adapter}

theorem indexArtifact_full {d : IngestDraw} {created refresh : Bool} {response : Ingested}
    (hr : (created || refresh || !a.catalogCurrent) = true)
    (h : indexArtifact env adapter d a created .full refresh db = (db', .ok response)) :
    ∃ db₁ db₂ db₃, exec env.claim (.requestFull a.id) db = .ok db₁ ∧
      refreshCatalog env adapter.catalog d.catalog a .full db₁ = (db₂, .ok ()) ∧
      materializeAll env adapter.functionGraph d.materialize (db₂.definedFunctions a.id) db₂ =
        (db₃, .ok ()) ∧
      exec env.claim (.completeFull a.id) db₃ = .ok db' := by
  unfold indexArtifact at h
  rw [if_pos rfl] at h
  split at h
  · cases h
  · rename_i db₁ h₁
    dsimp only at h
    rw [if_pos hr] at h
    split at h
    · cases h
    · rename_i db₂ u h₂
      split at h
      · cases h
      · rw [if_pos rfl] at h
        split at h
        · cases h
        · rename_i db₃ v h₃
          rw [if_pos rfl] at h
          split at h
          · cases h
          · rename_i db₄ h₄
            cases h
            exact ⟨db₁, db₂, db₃, h₁, h₂, h₃, h₄⟩

/-- The row of the artifact after a catalog of a full index. -/
theorem refreshCatalog_row {d : CatalogDraw} (hs : db.Stores a)
    (hg : C.Catalogs a (adapter.catalog a.storedPath))
    (h : refreshCatalog env adapter.catalog d a .full db = (db', .ok ())) :
    ∃ r module, db'.artifact a.id = some r ∧
      moduleRecord (catalog (C.module a.id)) = some module ∧
      ({ r with completedIndexLevel := .full } : Artifact).unrun =
        (C.indexedArtifact a module).unrun := by
  obtain ⟨_, _, records', _, hacc, _⟩ := refreshCatalog_published h
  cases refreshCatalog_run h with
  | @published db₁ _ module records hclaim hgraph hmodule hpub =>
    have hsame : records' = records := Except.ok.inj ((accept_ok hacc).1.symm.trans hgraph)
    rw [hsame] at hacc
    obtain rfl := hg records hacc
    obtain ⟨inv, _, hone, _, ht⟩ := claimCatalog_ok hclaim
    have hart : db₁.artifacts = _ := congrArg Tables.artifacts ht
    obtain ⟨hart', _⟩ := publishCatalog_claims hpub
    obtain ⟨r, hr, hid, hsha⟩ := hs
    -- the row that is claimed is the artifact's
    obtain ⟨r₀, hr₀⟩ := List.length_eq_one_iff.mp hone
    obtain ⟨hmem, hcond⟩ := List.mem_filter.mp (hr₀ ▸ List.mem_singleton.mpr rfl)
    have hid₀ : r₀.id = a.id := by
      rw [Bool.and_eq_true, decide_eq_true_eq] at hcond
      exact hcond.1
    obtain rfl : r₀ = r := List.inj_on_of_nodup_map db.constraints.artifactKey hmem hr
      (hid₀.trans hid.symm)
    have hlook : lookup Artifact.id a.id db.artifacts = some r₀ := by
      rw [← hid]
      exact lookup_self db.constraints.artifactKey hr
    have hclaimed : lookup Artifact.id a.id db₁.artifacts =
        some { Artifact.claimed d.claim.owner d.claim.claimedAt .full r₀ with
          catalogRunId := some d.claim.runId } := by
      have hset : (Artifact.claimed d.claim.owner d.claim.claimedAt .full r₀).id = a.id := hid
      rw [hart]
      show lookup Artifact.id a.id (updateWhere _ _ (updateWhere _ _ _)) = _
      rw [lookup_updateWhere, lookup_updateWhere, hlook, Option.map_some, Option.map_some,
        if_pos hcond, if_pos (decide_eq_true hset)]
      · exact fun _ => rfl
      · exact fun _ => rfl
    refine ⟨Artifact.published module ((capabilitiesRecord (catalog (C.module a.id))).getD [])
      { Artifact.claimed d.claim.owner d.claim.claimedAt .full r₀ with
        catalogRunId := some d.claim.runId }, module, ?_, hmodule, ?_⟩
    · unfold Tables.artifact
      rw [hart', lookup_updateWhere, hclaimed, Option.map_some]
      · exact congrArg some (if_pos (decide_eq_true hid))
      · exact fun _ => rfl
    · unfold Artifact.unrun Contents.indexedArtifact Artifact.published Artifact.claimed
      simp only [hid, hsha]

/-- The functions the loop goes over are those with a body. -/
theorem Conforms.definedFunctions (h : Conforms C db.toTables) (hs : db.Stores a)
    (hre : ∀ K F, (C.module a.id).functions[K]? = some F → C.Recatalogued db.toTables a K F) :
    (db.definedFunctions a.id).Nodup ∧
      (∀ handle ∈ db.definedFunctions a.id, ∃ K F,
        handle = entityId a (functionLocal (functionKey K)) ∧ F.isDeclaration = false ∧
          C.Recatalogued db.toTables a K F) ∧
      ∀ K F, (C.module a.id).functions[K]? = some F →
        (F.isDeclaration = false ↔
          entityId a (functionLocal (functionKey K)) ∈ db.definedFunctions a.id) := by
  have hface : ∀ {K F e}, (C.module a.id).functions[K]? = some F → e ∈ db.entities →
      e.id = entityId a (functionLocal (functionKey K)) →
      e.artifactId = a.id ∧ e.kind = "function" ∧ e.declared = F.isDeclaration := by
    intro K F e hF he hid
    obtain ⟨text, m, hh, _⟩ := (hre K F hF).stands
    obtain rfl := List.inj_on_of_nodup_map db.constraints.entityKey he hh.entity
      (hid.trans hh.cols.1.symm)
    refine ⟨rfl, rfl, ?_⟩
    show decide (some (AttrValue.bool F.isDeclaration) = some (.bool true)) = F.isDeclaration
    cases F.isDeclaration with
    | true => rfl
    | false => rfl
  have hmem : ∀ {handle}, handle ∈ db.definedFunctions a.id ↔ ∃ e ∈ db.entities, e.id = handle ∧
      e.artifactId = a.id ∧ e.kind = "function" ∧ e.declared = false := by
    intro handle
    unfold Tables.definedFunctions
    rw [List.mem_map]
    constructor
    · rintro ⟨e, he, hid⟩
      obtain ⟨he, hcond⟩ := List.mem_filter.mp he
      simp only [Bool.and_eq_true, decide_eq_true_eq, Bool.not_eq_true'] at hcond
      exact ⟨e, he, hid, hcond.1.1, hcond.1.2, hcond.2⟩
    · rintro ⟨e, he, hid, hart, hk, hd⟩
      refine ⟨e, List.mem_filter.mpr ⟨he, ?_⟩, hid⟩
      rw [hd, decide_eq_true hart, decide_eq_true hk]
      rfl
  refine ⟨db.constraints.entityKey.sublist (List.filter_sublist.map _), fun handle hh => ?_,
    fun K F hF => ⟨fun hd => ?_, fun hh => ?_⟩⟩
  · obtain ⟨e, he, rfl, hart, hk, hd⟩ := hmem.mp hh
    obtain ⟨b, K, G, m, hold⟩ := h.functions e he hk
    obtain ⟨F, m', hhold⟩ := h.holds db.constraints hs he hart hold.cols.2.2.1
    refine ⟨K, F, hhold.cols.1, ?_, hre K F hhold.function⟩
    rw [← (hface hhold.function he hhold.cols.1).2.2]
    exact hd
  · obtain ⟨text, m, hhold, _⟩ := (hre K F hF).stands
    obtain ⟨hart, hk, hdecl⟩ := hface hF hhold.entity hhold.cols.1
    exact hmem.mpr ⟨_, hhold.entity, hhold.cols.1, hart, hk, hdecl.trans hd⟩
  · obtain ⟨e, he, hid, _, _, hd⟩ := hmem.mp hh
    rw [← (hface hF he hid).2.2]
    exact hd

/-- **What a full index leaves**, after every history. -/
theorem History.indexed (h : History C db) (hu : C.Unambiguous) (ha : a ∈ db.artifacts)
    (hans : C.Answered db.toTables adapter) {d : IngestDraw} {created refresh : Bool}
    (hr : (created || refresh || !a.catalogCurrent) = true) {response : Ingested}
    (hi : indexArtifact env adapter d a created .full refresh db = (db', .ok response)) :
    C.Indexed db'.toTables a := by
  obtain ⟨db₁, db₂, db₃, h₁, h₂, h₃, h₄⟩ := indexArtifact_full hr hi
  have hconf := h.conforms hu
  have hst : db.Stores a := ⟨a, ha, rfl, rfl⟩
  have hmark : (Statement.requestFull a.id).Aside := trivial
  have hconf₁ : Conforms C db₁.toTables := by
    rw [exec_ok h₁]
    exact hconf.aside hmark
  have hst₁ : db₁.Stores a := by
    rw [exec_ok h₁]
    exact hst.effect _
  have hg := hans.catalogs a ha
  obtain ⟨hconf₂, hre⟩ := hconf₁.recatalogued hst₁ hg h₂
  obtain ⟨r, module, hrow, hmodule, hcols⟩ := refreshCatalog_row hst₁ hg h₂
  have hfiles₁ : db₁.artifacts.map Artifact.file = db.artifacts.map Artifact.file := by
    rw [exec_ok h₁]
    exact Statement.files_eq (fun _ => Statement.noConfusion) _
  have hans₂ : C.Answered db₂.toTables adapter :=
    hans.of_files ((refreshCatalog_files h₂).trans hfiles₁)
  have hsha := congrArg Artifact.contentSha256 hcols
  have hst₂ : db₂.Stores a := ⟨r, mem_of_lookup hrow, key_of_lookup hrow, hsha⟩
  obtain ⟨hn, hlist, hdefined⟩ := hconf₂.definedFunctions hst₂ hre
  obtain ⟨hconf₃, hfiles₃, hready, hkeep⟩ := hconf₂.materializeAll_ready hu hans₂ hn hlist h₃
  have hlast : (Statement.completeFull a.id).Aside := trivial
  have hsame := hlast.same db₃.toTables
  have ht := exec_ok h₄
  refine ⟨?_, db'.constraints, ?_, fun K F hF hd => ?_, fun K F hF hd => ?_, ?_⟩
  · rw [ht]
    exact hconf₃.aside hlast
  · rw [ht]
    refine Tables.Stores.effect ?_ _
    rw [Tables.Stores, hfiles₃]
    exact hst₂
  · obtain ⟨run, hh⟩ := hready K F hF ((hdefined K F hF).mp hd)
    rw [ht]
    exact ⟨run, hh.sameContents hsame⟩
  · obtain ⟨text, m, hh, _⟩ := (hre K F hF).stands
    rw [ht]
    refine ⟨_, m, (hkeep _ _ _ _ _ hh fun hmem => ?_).sameContents hsame⟩
    rw [hh.cols.1] at hmem
    rw [(hdefined K F hF).mpr hmem] at hd
    cases hd
  · refine ⟨{ r with completedIndexLevel := .full }, module, ?_, hmodule, hcols⟩
    have hrow₃ : lookup Artifact.id a.id db₃.artifacts = some r := by
      rw [hfiles₃]
      exact hrow
    rw [ht]
    show lookup Artifact.id a.id (updateWhere _ _ db₃.artifacts) = _
    rw [lookup_updateWhere, hrow₃, Option.map_some]
    · exact congrArg some (if_pos (decide_eq_true (key_of_lookup hrow)))
    · exact fun _ => rfl

end Index

/-! ## 4. Two states in which an artifact is indexed -/

/-- The handle of a function with a body of the artifact. -/
def Contents.Bodied (C : Contents) (a : Artifact) (f : String) : Prop :=
  ∃ K F, (C.module a.id).functions[K]? = some F ∧ F.isDeclaration = false ∧
    f = entityId a (functionLocal (functionKey K))

section Compare

variable {C : Contents} {t t' : Tables} {a b : Artifact} {K : Nat} {F : Function} {p p' : Publish}
  {f : String}

/-- An artifact is indexed under each of its names. -/
theorem Contents.Indexed.congr (h : C.Indexed t a) (hid : a.id = b.id)
    (hsha : a.contentSha256 = b.contentSha256) : C.Indexed t b where
  conforms := h.conforms
  constraints := h.constraints
  stores := h.stores.renamed hid hsha
  ready K F hF hd := by
    obtain ⟨run, hh⟩ := h.ready K F (by rw [hid]; exact hF) hd
    have hb := hh.congr (h.stores.renamed hid hsha) hid hsha
    refine ⟨run, ?_⟩
    unfold Function.readyFace FunctionRecord.readyRow at hb ⊢
    rw [FunctionRecord.faceRow_congr hid hsha, FunctionRecord.materializationRow_congr hid hsha] at hb
    exact hb
  declared K F hF hd := by
    obtain ⟨e, m, hh⟩ := h.declared K F (by rw [hid]; exact hF) hd
    exact ⟨e, m, hh.congr (h.stores.renamed hid hsha) hid hsha⟩
  row := by
    obtain ⟨r, module, hr, hm, hcols⟩ := h.row
    refine ⟨r, module, hid ▸ hr, hid ▸ hm, hcols.trans ?_⟩
    unfold Artifact.unrun Contents.indexedArtifact Artifact.published
    simp only [hid, hsha]

/-- A function with a body is shown. -/
theorem Contents.Indexed.shows (h : C.Indexed t a) (hu : C.Unambiguous)
    (hF : (C.module a.id).functions[K]? = some F) (hd : F.isDeclaration = false) :
    ∃ p, C.Shows t a K F p := by
  obtain ⟨run, hh⟩ := h.ready K F hF hd
  obtain ⟨p, hp, _⟩ := hh.shows hu rfl
  exact ⟨p, hp⟩

/-- A function that is shown lies in the artifact exactly where it is one of its functions. -/
theorem Contents.Indexed.bodied_iff (h : C.Indexed t a) (hp : C.Shows t b K F p) :
    b.id = a.id ↔ C.Bodied a p.target.handle := by
  constructor
  · intro hid
    have hsha := Tables.Stores.sha_eq h.constraints hp.stores h.stores hid
    refine ⟨K, F, hid ▸ hp.function, hp.defined, ?_⟩
    rw [hp.publishes.handle, entityId_congr hsha]
  · rintro ⟨J, G, _, _, hf⟩
    rw [hp.publishes.handle] at hf
    exact (h.conforms.handle_inj h.constraints hp.stores h.stores (colon_mem_functionLocal _)
      (colon_mem_functionLocal _) hf).1

/-- **Rows of functions**: two states have the same of them in the artifact, where each function's
    are those of its stream, and lie in the artifact where the function does. -/
theorem Contents.Indexed.part (h : C.Indexed t a) (h' : C.Indexed t' a) (hu : C.Unambiguous)
    {ρ σ : Type} {rows : Tables → String → List ρ} {here : Tables → ρ → Bool} {g : ρ → σ}
    (hsame : ∀ {K F p p'}, C.Shows t a K F p → C.Shows t' a K F p' →
      (rows t p.target.handle).map g = (rows t' p'.target.handle).map g)
    (hhere : ∀ {t}, C.Indexed t a → ∀ f, ∀ r ∈ rows t f, here t r = true ↔ C.Bodied a f)
    (f : String) :
    ((rows t f).filter (here t)).map g = ((rows t' f).filter (here t')).map g := by
  have hall : ∀ {t}, C.Indexed t a → C.Bodied a f → (rows t f).filter (here t) = rows t f :=
    fun ht hf => List.filter_eq_self.mpr fun r hr => (hhere ht f r hr).mpr hf
  have hnone : ∀ {t}, C.Indexed t a → ¬ C.Bodied a f → (rows t f).filter (here t) = [] :=
    fun ht hf => List.filter_eq_nil_iff.mpr fun r hr hin => hf ((hhere ht f r hr).mp hin)
  by_cases hf : C.Bodied a f
  · rw [hall h hf, hall h' hf]
    obtain ⟨K, F, hF, hd, hfid⟩ := hf
    obtain ⟨p, hp⟩ := h.shows hu hF hd
    obtain ⟨p', hp'⟩ := h'.shows hu hF hd
    have hrows := hsame hp hp'
    rw [hp.publishes.handle, hp'.publishes.handle, ← hfid] at hrows
    exact hrows
  · rw [hnone h hf, hnone h' hf]

/-- A function that owns a row of a snapshot is shown. -/
theorem Contents.Indexed.shown (h : C.Indexed t a) (hu : C.Unambiguous)
    (hf : t.relationsOf f ≠ [] ∨ t.sourcesOf f ≠ [] ∨ t.capabilitiesOf f ≠ []) :
    ∃ b K F p, C.Shows t b K F p ∧ p.target.handle = f := by
  refine h.conforms.shown_of_owner hu fun hbare => ?_
  rcases hf with hf | hf | hf
  · exact hf hbare.relations
  · exact hf hbare.sources
  · exact hf hbare.capabilities

theorem Contents.Indexed.relation_here (h : C.Indexed t a) (hu : C.Unambiguous) (f : String)
    (r : Relation) (hr : r ∈ t.relationsOf f) :
    decide (r.artifactId = a.id) = true ↔ C.Bodied a f := by
  obtain ⟨b, K, F, p, hp, rfl⟩ := h.shown hu (.inl (List.ne_nil_of_mem hr))
  rw [hp.snapshot.relations] at hr
  obtain ⟨q, _, rfl⟩ := List.mem_map.mp hr
  rw [← h.bodied_iff hp, ← hp.publishes.id, decide_eq_true_eq]
  exact Iff.rfl

theorem Contents.Indexed.source_here (h : C.Indexed t a) (hu : C.Unambiguous) (f : String)
    (s : SourceLocation) (hs : s ∈ t.sourcesOf f) :
    decide (s.artifactId = a.id) = true ↔ C.Bodied a f := by
  obtain ⟨b, K, F, p, hp, rfl⟩ := h.shown hu (.inr (.inl (List.ne_nil_of_mem hs)))
  rw [hp.snapshot.sources] at hs
  obtain ⟨q, _, rfl⟩ := List.mem_map.mp hs
  rw [← h.bodied_iff hp, ← hp.publishes.id, decide_eq_true_eq]
  exact Iff.rfl

theorem Contents.Indexed.capability_here (h : C.Indexed t a) (hu : C.Unambiguous) (f : String)
    (c : Capability) (hc : c ∈ t.capabilitiesOf f) :
    (t.entities.any fun e => e.id = c.functionId && e.artifactId = a.id) = true ↔
      C.Bodied a f := by
  obtain ⟨b, K, F, p, hp, rfl⟩ := h.shown hu (.inr (.inr (List.ne_nil_of_mem hc)))
  have hid : c.functionId = p.target.handle := of_decide_eq_true (List.mem_filter.mp hc).2
  have hart : ∀ e ∈ t.entities, e.id = c.functionId → e.artifactId = b.id := fun e he heq =>
    (Prod.mk.inj ((h.conforms.id_iff h.constraints hp.stores he (colon_mem_functionLocal _)).mp
      (heq.trans (hid.trans hp.publishes.handle)))).1
  rw [← h.bodied_iff hp, List.any_eq_true]
  constructor
  · rintro ⟨e, he, hcond⟩
    rw [Bool.and_eq_true, decide_eq_true_eq, decide_eq_true_eq] at hcond
    exact (hart e he hcond.1).symm.trans hcond.2
  · intro hba
    obtain ⟨m, hm, hmf, _⟩ := hp.recorded
    obtain ⟨e, he, _, hfn, _⟩ := h.conforms.materializations m hm
    have heq : e.id = c.functionId := hfn.symm.trans (hmf.trans hid.symm)
    refine ⟨e, he, ?_⟩
    rw [Bool.and_eq_true, decide_eq_true_eq, decide_eq_true_eq]
    exact ⟨heq, (hart e he heq).trans hba⟩

/-- Two publishes of one stream write the same relations, but for their runs. -/
theorem Contents.Shows.relations_unrun (h : C.Shows t a K F p) (h' : C.Shows t' a K F p') :
    (t.relationsOf p.target.handle).map Relation.unrun =
      (t'.relationsOf p'.target.handle).map Relation.unrun := by
  have hmem : ∀ {t p}, C.Shows t a K F p → ∀ q ∈ p.relations,
      (p.snapshotRelation q).functionId = some (entityId a (functionLocal (functionKey K))) := by
    intro t p hp q hq
    have hin : p.snapshotRelation q ∈ t.relationsOf p.target.handle := by
      rw [hp.snapshot.relations]
      exact List.mem_map_of_mem hq
    exact (of_decide_eq_true (List.mem_filter.mp hin).2).trans (congrArg some hp.publishes.handle)
  have hrows : p.relations = p'.relations :=
    h.publishes.relations.trans h'.publishes.relations.symm
  rw [h.snapshot.relations, h'.snapshot.relations, List.map_map, List.map_map, ← hrows]
  refine List.map_congr_left fun q hq => ?_
  have hown := (hmem h q hq).trans (hmem h' q (hrows ▸ hq)).symm
  have hart := h.publishes.id.trans h'.publishes.id.symm
  have hsrc := (h.srcId q).trans (h'.srcId q).symm
  have hdst := (h.dstId q).trans (h'.dstId q).symm
  show Relation.unrun (p.snapshotRelation q) = Relation.unrun (p'.snapshotRelation q)
  unfold Relation.unrun
  rw [hown, hsrc, hdst]
  unfold Publish.snapshotRelation Publish.relationRow
  rw [hart]

theorem Contents.Shows.sources_unrun (h : C.Shows t a K F p) (h' : C.Shows t' a K F p') :
    (t.sourcesOf p.target.handle).map SourceLocation.unrun =
      (t'.sourcesOf p'.target.handle).map SourceLocation.unrun := by
  have hrows : p.sources = p'.sources := h.publishes.sources.trans h'.publishes.sources.symm
  rw [h.snapshot.sources, h'.snapshot.sources, List.map_map, List.map_map, ← hrows]
  refine List.map_congr_left fun s _ => ?_
  have hart := h.publishes.id.trans h'.publishes.id.symm
  have hid := (h.entityId_eq s.entity).trans (h'.entityId_eq s.entity).symm
  show SourceLocation.unrun (p.snapshotSource s) = SourceLocation.unrun (p'.snapshotSource s)
  unfold SourceLocation.unrun Publish.snapshotSource Publish.sourceRow
  simp only [Option.getD_some]
  rw [hart, hid]

theorem Contents.Shows.capabilities_unrun (h : C.Shows t a K F p) (h' : C.Shows t' a K F p') :
    (t.capabilitiesOf p.target.handle).map Capability.unrun =
      (t'.capabilitiesOf p'.target.handle).map Capability.unrun := by
  have hmem : ∀ {t p}, C.Shows t a K F p → ∀ x ∈ kMaterializationCapabilities,
      (p.snapshotCapability x).functionId = entityId a (functionLocal (functionKey K)) := by
    intro t p hp x hx
    have hin : p.snapshotCapability x ∈ t.capabilitiesOf p.target.handle := by
      rw [hp.snapshot.capabilities]
      exact List.mem_map_of_mem hx
    exact (of_decide_eq_true (List.mem_filter.mp hin).2).trans hp.publishes.handle
  rw [h.snapshot.capabilities, h'.snapshot.capabilities, List.map_map, List.map_map]
  refine List.map_congr_left fun x hx => ?_
  have hown := (hmem h x hx).trans (hmem h' x hx).symm
  show Capability.unrun (p.snapshotCapability x) = Capability.unrun (p'.snapshotCapability x)
  unfold Capability.unrun
  rw [hown]
  rfl

/-- A function's entity is in both states, and its row is the same in both but for the run. -/
theorem Contents.Indexed.function (h : C.Indexed t a) (h' : C.Indexed t' a) {e : Entity}
    (he : e ∈ t.entities) (hk : e.kind = "function") (hart : e.artifactId = a.id) :
    e ∈ t'.entities ∧ ∃ m ∈ t.materializations, m.functionId = e.id ∧
      ∃ m' ∈ t'.materializations, m'.artifactId = a.id ∧ m'.unrun = m.unrun := by
  obtain ⟨b, K, G, m₀, hold⟩ := h.conforms.functions e he hk
  obtain ⟨F, m, hh⟩ := h.conforms.holds h.constraints h.stores he hart hold.cols.2.2.1
  cases hd : F.isDeclaration with
  | true =>
    obtain ⟨e', m', hh'⟩ := h'.declared K F hh.function hd
    obtain ⟨hface, hrow⟩ := hh.declared hd
    obtain ⟨hface', hrow'⟩ := hh'.declared hd
    have hsame : e' = e := hface'.trans hface.symm
    exact ⟨hsame ▸ hh'.entity, m, hh.row, hh.handle, m', hh'.row, hh'.artifact,
      congrArg Materialization.unrun (hrow'.trans hrow.symm)⟩
  | false =>
    obtain ⟨run, hready⟩ := h.ready K F hh.function hd
    obtain ⟨run', hready'⟩ := h'.ready K F hh.function hd
    have hface : e = F.readyFace a K :=
      List.inj_on_of_nodup_map h.constraints.entityKey he hready.entity
        (hh.cols.1.trans hready.cols.1.symm)
    rw [hface]
    exact ⟨hready'.entity, _, hready.row, hready.handle, _, hready'.row, hready'.artifact, rfl⟩

/-- The row of an entity inside a function depends on the names and on the relations. -/
theorem Publish.ownedRow_congr (hid : p.target.artifact.id = p'.target.artifact.id)
    (hsha : p.target.artifact.contentSha256 = p'.target.artifact.contentSha256)
    (hhandle : p.target.handle = p'.target.handle) (hr : p.relations = p'.relations)
    (e : EntityRecord) : p.ownedRow e = p'.ownedRow e := by
  have hblock : p.blockId e = p'.blockId e := by
    unfold Publish.blockId
    rw [hr]
    simp only [entityId_congr hsha]
  unfold Publish.ownedRow entityRow
  rw [hid, entityId_congr hsha, hhandle, hblock]

/-- The entities of the artifact are in both states. -/
theorem Contents.Indexed.entity (h : C.Indexed t a) (h' : C.Indexed t' a) (hu : C.Unambiguous)
    {x : Entity} (hx : x ∈ t.entities) (hart : x.artifactId = a.id) : x ∈ t'.entities := by
  obtain ⟨c, hc, hcid, _, hplaced⟩ := h.conforms.sound.entities x hx
  cases hplaced with
  | function key hk hl ho => exact (h.function h' hx hk hart).1
  | global hk hl ho =>
    obtain ⟨b, K, F, e, hb, hF, hd, he, hkind, rfl⟩ := h.conforms.globals x hx hk
    have hid : b.id = a.id := hart
    have hsha := Tables.Stores.sha_eq h.constraints hb h.stores hid
    obtain ⟨p', hp'⟩ := h'.shows hu (hid ▸ hF) hd
    rw [hid] at he
    have hrow := hp'.snapshot.globals e (hp'.publishes.entities ▸ he) hkind
    unfold entityRow at hrow ⊢
    rw [hp'.publishes.id, hp'.entityId_eq, ← entityId_congr hsha, ← hid] at hrow
    exact hrow
  | interior key hf hg hl ho =>
    obtain ⟨b, K, F, p, hp, _, e, he, hi, rfl⟩ := h.conforms.shown_of_entity hu hx ho
    have hid : b.id = a.id := hp.publishes.id.symm.trans hart
    have hsha := Tables.Stores.sha_eq h.constraints hp.stores h.stores hid
    obtain ⟨p', hp'⟩ := h'.shows hu (hid ▸ hp.function) hp.defined
    have hentities : p.entities = p'.entities := by
      rw [hp.publishes.entities, hp'.publishes.entities, hid]
    have hrelations : p.relations = p'.relations := by
      rw [hp.publishes.relations, hp'.publishes.relations, hid]
    have hhandle : p.target.handle = p'.target.handle := by
      rw [hp.publishes.handle, hp'.publishes.handle, entityId_congr hsha]
    rw [Publish.ownedRow_congr (hp.publishes.id.trans (hid.trans hp'.publishes.id.symm))
      (hp.publishes.sha.trans (hsha.trans hp'.publishes.sha.symm)) hhandle hrelations]
    exact ((hp'.snapshot.entities _).mpr ⟨e, hentities ▸ he, hi, rfl⟩).1

/-- The rows of the artifact's functions are in both states, but for their runs. -/
theorem Contents.Indexed.materialization (h : C.Indexed t a) (h' : C.Indexed t' a)
    {m : Materialization} (hm : m ∈ (t.artifactMaterializations a.id).map Materialization.unrun) :
    m ∈ (t'.artifactMaterializations a.id).map Materialization.unrun := by
  obtain ⟨m₀, hm₀, rfl⟩ := List.mem_map.mp hm
  obtain ⟨hm₀, hart⟩ := List.mem_filter.mp hm₀
  obtain ⟨e, he, hk, hfn, hea⟩ := h.conforms.materializations m₀ hm₀
  obtain ⟨_, m, hmem, hid, m', hm', hart', hsame⟩ :=
    h.function h' he hk (hea.symm.trans (of_decide_eq_true hart))
  rw [h.conforms.row_unique h.constraints hm₀ hmem (hfn.trans hid.symm), ← hsame]
  exact List.mem_map_of_mem (List.mem_filter.mpr ⟨hm', decide_eq_true hart'⟩)

theorem artifactMaterializations_nodup (hc : t.Constraints) (id : String) :
    ((t.artifactMaterializations id).map Materialization.unrun).Nodup := by
  refine List.Nodup.of_map Materialization.pair ?_
  rw [List.map_map]
  exact hc.materializationKey.sublist (List.filter_sublist.map _)

/-- **Two states in which an artifact is indexed in full hold the same of it.** -/
theorem Contents.Indexed.same (h : C.Indexed t a) (h' : C.Indexed t' a) (hu : C.Unambiguous) :
    SameEvidence t t' a.id where
  artifact := by
    obtain ⟨r, module, hr, hmodule, hcols⟩ := h.row
    obtain ⟨r', module', hr', hmodule', hcols'⟩ := h'.row
    obtain rfl := Option.some.inj (hmodule.symm.trans hmodule')
    rw [hr, hr', Option.map_some, Option.map_some, hcols, hcols']
  entities x hart := ⟨fun hx => h.entity h' hu hx hart, fun hx => h'.entity h hu hx hart⟩
  relations := by
    have hpart : ∀ (t : Tables) (f : String), ((t.artifactRelations a.id).map Relation.unrun).filter
        (·.functionId = some f) =
        ((t.relationsOf f).filter (·.artifactId = a.id)).map Relation.unrun := by
      intro t f
      rw [List.filter_map, Tables.artifactRelations, Tables.relationsOf, List.filter_comm]
      rfl
    have hcover : ∀ {t}, C.Indexed t a → ∀ r ∈ (t.artifactRelations a.id).map Relation.unrun,
        ∃ f, decide (r.functionId = some f) = true := by
      intro t ht r hr
      obtain ⟨r₀, hr₀, rfl⟩ := List.mem_map.mp hr
      obtain ⟨f, hf, _⟩ := ht.conforms.sound.relations r₀ (List.mem_filter.mp hr₀).1
      exact ⟨f, decide_eq_true hf⟩
    refine perm_of_parts _ _ (fun f => ?_) (hcover h) (hcover h')
    rw [hpart, hpart]
    exact h.part h' hu (fun hp hp' => hp.relations_unrun hp') (fun ht => ht.relation_here hu) f
  sources := by
    have hpart : ∀ (t : Tables) (f : String),
        ((t.artifactSources a.id).map SourceLocation.unrun).filter (·.entityId ∈ t.owned f) =
          ((t.sourcesOf f).filter (·.artifactId = a.id)).map SourceLocation.unrun := by
      intro t f
      rw [List.filter_map, Tables.artifactSources, Tables.sourcesOf, List.filter_comm]
      rfl
    have hcover : ∀ {t}, C.Indexed t a → ∀ s ∈ (t.artifactSources a.id).map SourceLocation.unrun,
        ∃ f, decide (s.entityId ∈ t.owned f) = true := by
      intro t ht s hs
      obtain ⟨s₀, hs₀, rfl⟩ := List.mem_map.mp hs
      obtain ⟨e, he, hid, ho⟩ := ht.conforms.sound.sources s₀ (List.mem_filter.mp hs₀).1
      obtain ⟨f, hf⟩ := Option.isSome_iff_exists.mp ho
      exact ⟨f, decide_eq_true (mem_owned.mpr ⟨e, he, hf, hid⟩)⟩
    refine perm_of_parts _ _ (fun f => ?_) (hcover h) (hcover h')
    rw [hpart, hpart]
    exact h.part h' hu (fun hp hp' => hp.sources_unrun hp') (fun ht => ht.source_here hu) f
  materializations := (List.perm_ext_iff_of_nodup (artifactMaterializations_nodup h.constraints _)
    (artifactMaterializations_nodup h'.constraints _)).mpr fun _ =>
      ⟨fun hm => h.materialization h' hm, fun hm => h'.materialization h hm⟩
  capabilities := by
    have hpart : ∀ (t : Tables) (f : String),
        ((t.artifactCapabilities a.id).map Capability.unrun).filter (·.functionId = f) =
          ((t.capabilitiesOf f).filter fun c =>
            t.entities.any fun e => e.id = c.functionId && e.artifactId = a.id).map
              Capability.unrun := by
      intro t f
      rw [List.filter_map, Tables.artifactCapabilities, Tables.capabilitiesOf, List.filter_comm]
      rfl
    refine perm_of_parts (fun f c => c.functionId = f) (fun f c => c.functionId = f) (fun f => ?_)
      (fun c _ => ⟨c.functionId, decide_eq_true rfl⟩) fun c _ => ⟨c.functionId, decide_eq_true rfl⟩
    rw [hpart, hpart]
    exact h.part h' hu (fun hp hp' => hp.capabilities_unrun hp') (fun ht => ht.capability_here hu) f

end Compare

/-! ## 5. Recovery -/

/-- **Recovery converges.** After two histories, each ended by a full index of one content that
    refreshes its catalog -- a first `ingest`, or a `reindex` after whatever has failed before --
    the two states hold the same of the artifact. -/
theorem full_index_converges {C : Contents} {db db₁ db' db₁' : Database} {a a' : Artifact}
    {adapter adapter' : Adapter} {env env' : Environment} {d d' : IngestDraw}
    {created created' refresh refresh' : Bool} {response response' : Ingested}
    (hu : C.Unambiguous) (h : History C db) (h' : History C db')
    (hans : C.Answered db.toTables adapter) (hans' : C.Answered db'.toTables adapter')
    (ha : a ∈ db.artifacts) (ha' : a' ∈ db'.artifacts) (hsha : a'.contentSha256 = a.contentSha256)
    (hr : (created || refresh || !a.catalogCurrent) = true)
    (hr' : (created' || refresh' || !a'.catalogCurrent) = true)
    (hi : indexArtifact env adapter d a created .full refresh db = (db₁, .ok response))
    (hi' : indexArtifact env' adapter' d' a' created' .full refresh' db' = (db₁', .ok response')) :
    SameEvidence db₁.toTables db₁'.toTables a.id := by
  have hid : a'.id = a.id := by
    rw [((h'.conforms hu).sound.artifacts a' ha').id, ((h.conforms hu).sound.artifacts a ha).id, hsha]
  have hone := h.indexed hu ha hans hr hi
  have htwo := (h'.indexed hu ha' hans' hr' hi').congr hid hsha
  exact hone.same htwo hu

namespace Interrupted

open Uncollected (module unambiguous)

def adapter : Adapter := singleAdapter module

/-- What a call draws, under a name of its own. -/
def draw (name : String) : IngestDraw :=
  ⟨⟨Sample.claimDraw name (name ++ "c") 1, 2, 2⟩, fun _ => Collision.draw name⟩

/-- `ingest --index full` of a new file. -/
def first : Database × Except Thrown Ingested :=
  indexArtifact Sample.environment adapter (draw "a") Sample.artifact true .full false Sample.database

/-- The function is analysed, and a second analysis of it fails. -/
def analysed : Database :=
  (materialize Sample.environment adapter.functionGraph (Collision.draw "b") Collision.f0 false
    (singleCatalogued module)).1

def failed : Database :=
  (materialize Sample.environment (fun _ _ => .error "bad_alloc") (Collision.draw "d") Collision.f0
    true analysed).1

/-- The row of the artifact in that state. -/
def row : Artifact := (failed.artifact Sample.artifact.id).getD Sample.artifact

/-- `reindex --index full` after that. -/
def again : Database × Except Thrown Ingested :=
  indexArtifact Sample.environment adapter (draw "e") row false .full true failed

theorem first_history : History (Contents.single module) Sample.database := by
  have h₀ : Collision.empty.Fresh := ⟨rfl, rfl, rfl, rfl, rfl, rfl, rfl⟩
  have hstore : Attempt (Contents.single module) Collision.empty Sample.database :=
    @Attempt.store _ noFaults Sample.artifact _ _ ⟨by decide, by decide⟩ rfl
  exact ⟨_, h₀, .single hstore⟩

theorem failed_history : History (Contents.single module) failed := by
  have hcall : materialize Sample.environment adapter.functionGraph (Collision.draw "b") Collision.f0
      false (singleCatalogued module) = (analysed, _) := rfl
  have hone : Attempt (Contents.single module) (singleCatalogued module) analysed :=
    ((single_answered module _).materialize hcall).1
  have hcall' : materialize Sample.environment (fun _ _ => .error "bad_alloc") (Collision.draw "d")
      Collision.f0 true analysed = (failed, _) := rfl
  have htwo : Attempt (Contents.single module) analysed failed := by
    refine .materialize (fun target hent records hr => ?_) hcall'
    cases hr
  exact (singleCatalogued_history module).tail ((Relation.ReflTransGen.single hone).tail htwo)

end Interrupted

open Interrupted in
/-- A first ingest, and a reindex after a failed analysis of a function that had been analysed. -/
theorem full_index_converges_interrupted :
    SameEvidence first.1.toTables again.1.toTables Sample.artifact.id := by
  have hfirst : first.2.toBool = true := by decide +kernel
  have hagain : again.2.toBool = true := by decide +kernel
  have hrow : failed.artifact Sample.artifact.id = some row := by decide +kernel
  have hsha : row.contentSha256 = Sample.artifact.contentSha256 := by decide +kernel
  generalize hone : first = call at hfirst ⊢
  generalize htwo : again = call' at hagain ⊢
  obtain ⟨db₁, e | response⟩ := call
  · cases hfirst
  obtain ⟨db₁', e | response'⟩ := call'
  · cases hagain
  exact full_index_converges Uncollected.unambiguous first_history failed_history
    (single_answered Uncollected.module _) (single_answered Uncollected.module _)
    (List.mem_singleton.mpr rfl) (mem_of_lookup hrow) hsha rfl rfl hone htwo

end Irez
