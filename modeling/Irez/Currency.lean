/-
  File:      Irez/Currency.lean
  Subject:   Queries answer only from current analysis: the test that
             `ensure_materialized` and `materialize` make of a function's rows.

  * `Tables.Current` -- what the test is for: a ready row of this build, and exactly the
    capabilities of the contract; `cacheCurrent_iff`, it is what the test decides;
  * `materialize_current` -- an analysis that ends well makes the function current, whatever
    records the adapter emitted;
  * `StaysCurrent` -- a current function stays current under any materialization on demand
    (`StaysCurrent.ensure`);
  * `queries_answer_from_current_analysis` -- the nine queries that materialize on demand.
-/
import Irez.Trace
import Irez.Calls
import Irez.System

open Irez.Basis

namespace Irez

/-! ## 1. The manifest -/

/-- The completed capabilities of a function, as `capability_manifest_current` reads them. -/
def Tables.completedRows (t : Tables) (f : String) : List Capability :=
  t.capabilities.filter fun c => c.functionId = f && c.status = "completed"

/-- The completed (capability, precision) pairs are those of the contract. -/
def Tables.ManifestComplete (t : Tables) (f : String) : Prop :=
  ∀ name precision, (∃ c ∈ t.completedRows f, c.capability = name ∧ c.precision = precision) ↔
    ∃ p, precision = some p ∧ (name, p) ∈ kMaterializationCapabilities

section Manifest

variable {t : Tables} {f : String}

/-- A capability has one row. -/
theorem completedRows_inj (hc : t.Constraints) {c c' : Capability} (h : c ∈ t.completedRows f)
    (h' : c' ∈ t.completedRows f) (he : c.capability = c'.capability) : c = c' := by
  obtain ⟨hm, hp⟩ := List.mem_filter.mp h
  obtain ⟨hm', hp'⟩ := List.mem_filter.mp h'
  rw [Bool.and_eq_true, decide_eq_true_eq, decide_eq_true_eq] at hp hp'
  exact List.inj_on_of_nodup_map hc.capabilityKey hm hm'
    (Prod.ext (hp.1.trans hp'.1.symm) he)

theorem completedRows_nodup (hc : t.Constraints) : ((t.completedRows f).map (·.capability)).Nodup := by
  refine List.Nodup.map_on (fun c h c' h' he => completedRows_inj hc h h' he) ?_
  exact (List.Nodup.of_map _ hc.capabilityKey).filter _

theorem precision_ne_empty : ∀ x ∈ kMaterializationCapabilities, x.2 ≠ "" := by decide

/-- A precision that reads as one of the contract is that one. -/
theorem precision_of_getD {o : Option String} {x : String × String}
    (hx : x ∈ kMaterializationCapabilities) (h : o.getD "" = x.2) : o = some x.2 := by
  cases o with
  | none => exact absurd h.symm (precision_ne_empty x hx)
  | some p => exact congrArg some h

/-- **The manifest test decides equality of the two sets.** -/
theorem capabilityManifestCurrent_iff (hc : t.Constraints) :
    capabilityManifestCurrent t f = true ↔ t.ManifestComplete f := by
  have hunfold : capabilityManifestCurrent t f = true ↔
      (t.completedRows f).length = kMaterializationCapabilities.length ∧
        ∀ x ∈ kMaterializationCapabilities, ∃ c ∈ t.completedRows f,
          c.capability = x.1 ∧ c.precision.getD "" = x.2 := by
    simp [capabilityManifestCurrent, Tables.completedRows, Prod.forall, and_assoc]
  rw [hunfold]
  constructor
  · rintro ⟨hlen, hall⟩
    -- the names of the contract are among those of the rows, and there are as many
    have hsub : kMaterializationCapabilities.map (·.1) ⊆ (t.completedRows f).map (·.capability) := by
      intro n hn
      obtain ⟨x, hx, rfl⟩ := List.mem_map.mp hn
      obtain ⟨c, hcm, hname, _⟩ := hall x hx
      exact List.mem_map.mpr ⟨c, hcm, hname⟩
    have hperm : (kMaterializationCapabilities.map (·.1)).Perm
        ((t.completedRows f).map (·.capability)) := by
      refine (kMaterializationCapabilities_names_nodup.subperm hsub).perm_of_length_le ?_
      rw [List.length_map, List.length_map, hlen]
    intro name precision
    constructor
    · rintro ⟨c, hcm, rfl, rfl⟩
      obtain ⟨x, hx, hname⟩ := List.mem_map.mp (hperm.mem_iff.mpr (List.mem_map_of_mem hcm))
      obtain ⟨c', hcm', hname', hprec⟩ := hall x hx
      obtain rfl := completedRows_inj hc hcm hcm' (hname.symm.trans hname'.symm)
      exact ⟨x.2, precision_of_getD hx hprec, by rw [← hname]; exact hx⟩
    · rintro ⟨p, rfl, hx⟩
      obtain ⟨c, hcm, hname, hprec⟩ := hall (name, p) hx
      exact ⟨c, hcm, hname, precision_of_getD hx hprec⟩
  · intro h
    have hrows : ∀ x ∈ kMaterializationCapabilities, ∃ c ∈ t.completedRows f,
        c.capability = x.1 ∧ c.precision = some x.2 :=
      fun x hx => (h x.1 (some x.2)).mpr ⟨x.2, rfl, hx⟩
    have hperm : ((t.completedRows f).map (·.capability)).Perm
        (kMaterializationCapabilities.map (·.1)) := by
      refine (List.perm_ext_iff_of_nodup (completedRows_nodup hc)
        kMaterializationCapabilities_names_nodup).mpr fun n => ?_
      constructor
      · intro hn
        obtain ⟨c, hcm, rfl⟩ := List.mem_map.mp hn
        obtain ⟨p, _, hp⟩ := (h c.capability c.precision).mp ⟨c, hcm, rfl, rfl⟩
        exact List.mem_map.mpr ⟨_, hp, rfl⟩
      · intro hn
        obtain ⟨x, hx, rfl⟩ := List.mem_map.mp hn
        obtain ⟨c, hcm, hname, _⟩ := hrows x hx
        exact List.mem_map.mpr ⟨c, hcm, hname⟩
    refine ⟨by simpa using hperm.length_eq, fun x hx => ?_⟩
    obtain ⟨c, hcm, hname, hprec⟩ := hrows x hx
    exact ⟨c, hcm, hname, by rw [hprec]; rfl⟩

end Manifest

/-! ## 2. Current functions -/

/-- A ready row of this build: its adapter, the adapter's version and the schema version. -/
structure Materialization.OfBuild (m : Materialization) : Prop where
  status : m.status = .structureReady
  adapterId : m.adapterId = some kAdapterId
  adapterVersion : m.adapterVersion = some kAdapterVersionString
  schemaVersion : m.analysisSchemaVersion = some kAnalysisSchemaVersion

/-- **Current analysis** of a function. -/
structure Tables.Current (t : Tables) (f : String) : Prop where
  row : ∃ m, t.materialization f = some m ∧ m.OfBuild
  manifest : t.ManifestComplete f

/-- The function is catalogued with a body: its entity bears the name of its key in its
    artifact, and it has one row, which is no declaration's. -/
structure Tables.Defined (t : Tables) (f : String) : Prop where
  entity : ∃ e a key, t.entity f = some e ∧ e.kind = "function" ∧ t.artifact e.artifactId = some a ∧
    e.localKey = functionLocal key ∧ e.id = entityId a e.localKey
  row : ∃ m ∈ t.materializations, m.functionId = f ∧ m.status ≠ .declarationOnly ∧
    ∀ m' ∈ t.materializations, m'.functionId = f → m' = m

/-- The handle is the function, or an entity it owns. -/
def Tables.Within (t : Tables) (f handle : String) : Prop :=
  handle = f ∨ ∃ e, t.entity handle = some e ∧ e.kind ≠ "function" ∧ e.functionId = some f

/-- The row of the function carries a run that was not there before. -/
def Tables.Reanalysed (t t' : Tables) (f : String) : Prop :=
  ∃ m run, t'.materialization f = some m ∧ m.analysisRunId = some run ∧ run ∉ t.runIds

section Current

variable {t : Tables} {f : String}

theorem ofBuild_iff {m : Materialization} : m.OfBuild ↔
    (m.status = .structureReady && m.adapterId.getD "" = kAdapterId &&
      m.adapterVersion.getD "" = kAdapterVersionString &&
      m.analysisSchemaVersion = some kAnalysisSchemaVersion) = true := by
  have hget : ∀ (o : Option String) (v : String), v ≠ "" → (o.getD "" = v ↔ o = some v) := by
    intro o v hv
    cases o with
    | none => exact ⟨fun h => absurd h.symm hv, fun h => by cases h⟩
    | some w => exact ⟨fun h => congrArg some h, fun h => Option.some.inj h⟩
  have h1 := hget m.adapterId kAdapterId (by decide)
  have h2 := hget m.adapterVersion kAdapterVersionString (by decide)
  simp only [Bool.and_eq_true, decide_eq_true_eq, h1, h2]
  exact ⟨fun h => ⟨⟨⟨h.status, h.adapterId⟩, h.adapterVersion⟩, h.schemaVersion⟩,
    fun ⟨⟨⟨ha, hb⟩, hc⟩, hd⟩ => ⟨ha, hb, hc, hd⟩⟩

/-- **The cache test decides currency.** -/
theorem cacheCurrent_iff (hc : t.Constraints) :
    (t.materialization f).any (cacheCurrent t) = true ↔ t.Current f := by
  constructor
  · intro h
    obtain ⟨m, hm, htest⟩ := (Option.any_eq_true _ _).mp h
    unfold cacheCurrent at htest
    rw [Bool.and_eq_true] at htest
    have hid : m.functionId = f := key_of_lookup hm
    rw [hid] at htest
    exact ⟨⟨m, hm, ofBuild_iff.mpr htest.1⟩, (capabilityManifestCurrent_iff hc).mp htest.2⟩
  · rintro ⟨⟨m, hm, hbuild⟩, hman⟩
    have hid : m.functionId = f := key_of_lookup hm
    refine (Option.any_eq_true _ _).mpr ⟨m, hm, ?_⟩
    unfold cacheCurrent
    rw [hid, Bool.and_eq_true]
    exact ⟨ofBuild_iff.mp hbuild, (capabilityManifestCurrent_iff hc).mpr hman⟩

end Current

/-! ## 3. What a publish does to the rows tested -/

section Publish

variable {t : Tables} {f : String}

theorem ManifestComplete.of_rows {t t' : Tables} (h : t.ManifestComplete f)
    (hr : t'.completedRows f = t.completedRows f) : t'.ManifestComplete f := by
  unfold Tables.ManifestComplete
  rw [hr]
  exact h

/-- The rows tested after a publish, whatever the stream: those of the function it names. -/
theorem Publish.exec_tested {p : Publish} {io : Faults} {db db' : Database}
    (h : p.exec io db = .ok db') :
    let named := p.functionId (p.localIds (p.replaced db.toTables))
    db'.runIds = db.runIds ∧
    db'.materializations =
      updateWhere (fun m => m.functionId = named && m.claimOwner = some p.owner)
        (Materialization.published p.run) db.materializations ∧
    db'.capabilities = deleteWhere (·.functionId = named) db.capabilities ++
      kMaterializationCapabilities.map
        (p.capabilityRow (p.localIds (p.replaced db.toTables))) := by
  obtain ⟨_, _, _, _, _, ht⟩ := Publish.exec_ok h
  rw [p.writeStatements_effect] at ht
  -- the deletes and the upserts touch neither
  have hrep : (p.replaced db.toTables).runs = db.runs ∧
      (p.replaced db.toTables).materializations = db.materializations ∧
      (p.replaced db.toTables).capabilities = db.capabilities := by
    unfold replaced
    rw [replaceStatements_effect]
    exact ⟨rfl, rfl, rfl⟩
  refine ⟨?_, ?_, ?_⟩
  · have hids : ∀ r : Run, (Run.ended .success p.draw.endedAt none r).id = r.id := fun _ => rfl
    unfold Tables.runIds
    rw [ht]
    show (updateWhere _ _ (p.replaced db.toTables).runs).map (·.id) = _
    rw [hrep.1]
    exact map_updateWhere hids _
  · rw [ht]
    show updateWhere _ _ (p.replaced db.toTables).materializations = _
    rw [hrep.2.1]
    rfl
  · rw [ht]
    show deleteWhere _ (p.replaced db.toTables).capabilities ++ _ = _
    rw [hrep.2.2]
    rfl

/-- **The function named by a publish has exactly the capabilities of the contract**, and the
    manifest of every other function is as before. -/
theorem Publish.exec_manifest {p : Publish} {io : Faults} {db db' : Database}
    (h : p.exec io db = .ok db') :
    db'.ManifestComplete (p.functionId (p.localIds (p.replaced db.toTables))) ∧
      ∀ f, db.ManifestComplete f → db'.ManifestComplete f := by
  obtain ⟨_, _, hcaps⟩ := Publish.exec_tested h
  have hnamed : db'.ManifestComplete (p.functionId (p.localIds (p.replaced db.toTables))) := by
    intro name precision
    unfold Tables.completedRows
    rw [hcaps]
    constructor
    · rintro ⟨c, hc, rfl, rfl⟩
      obtain ⟨hc, hp⟩ := List.mem_filter.mp hc
      rw [Bool.and_eq_true, decide_eq_true_eq] at hp
      rcases List.mem_append.mp hc with hc | hc
      · obtain ⟨_, hne⟩ := mem_deleteWhere.mp hc
        exact absurd hp.1 (of_decide_eq_false hne)
      · obtain ⟨x, hx, rfl⟩ := List.mem_map.mp hc
        exact ⟨x.2, rfl, hx⟩
    · rintro ⟨q, rfl, hx⟩
      refine ⟨_, List.mem_filter.mpr ⟨List.mem_append_right _ (List.mem_map_of_mem hx), ?_⟩,
        rfl, rfl⟩
      simp [capabilityRow]
  refine ⟨hnamed, fun f hf => ?_⟩
  by_cases he : f = p.functionId (p.localIds (p.replaced db.toTables))
  · rw [he]
    exact hnamed
  · refine ManifestComplete.of_rows hf ?_
    unfold Tables.completedRows
    rw [hcaps, List.filter_append]
    have hnew : (kMaterializationCapabilities.map (p.capabilityRow (p.localIds
        (p.replaced db.toTables)))).filter
          (fun c => c.functionId = f && c.status = "completed") = [] := by
      refine List.filter_eq_nil_iff.mpr fun c hc => ?_
      obtain ⟨x, _, rfl⟩ := List.mem_map.mp hc
      have hne : p.functionId (p.localIds (p.replaced db.toTables)) ≠ f := fun h => he h.symm
      simp [capabilityRow, hne]
    rw [hnew, List.append_nil, deleteWhere, List.filter_filter]
    refine List.filter_congr fun c _ => ?_
    by_cases hc : c.functionId = f
    · simp [hc, he]
    · simp [hc]

/-- The function named by a publish is its target, where the target bears the name of its
    key, whatever the stream declares. -/
theorem Publish.functionId_of_named {p : Publish} {t : Tables} {key : String} (hc : t.Constraints)
    (hm : p.target.function ∈ t.entities)
    (ha : p.target.artifact.id = p.target.function.artifactId) (hn : p.target.Named)
    (hl : p.target.function.localKey = functionLocal key) :
    p.functionId (p.localIds (p.replaced t)) = p.target.handle := by
  have hkey : p.target.key = key := Target.key_of_functionLocal hl
  have hfree : lookup Entity.localPair p.target.function.localPair (p.keptEntities t) =
      some p.target.function := by
    have hlocal : Keyed Entity.localPair t.entities := hc.entityLocal
    unfold keptEntities
    rw [lookup_deleteWhere hlocal, lookup_self hlocal hm]
    simp [Target.handle]
  have hrow : ∃ r, lookup Entity.localPair p.target.function.localPair (p.replaced t).entities =
      some r ∧ r.id = p.target.function.id := by
    have hpair : ∀ n r, Entity.localPair (Entity.restructure n r) = Entity.localPair r :=
      fun _ _ => rfl
    have hid : ∀ n r, (Entity.restructure n r).id = r.id := fun _ _ => rfl
    unfold replaced
    rw [replaceStatements_effect]
    exact lookup_upsertAll_col hpair hid hfree
  unfold functionId
  cases hi : p.localIds (p.replaced t) ("function:" ++ p.target.key) with
  | none => rfl
  | some i =>
    unfold localIds localToId at hi
    split at hi
    · rw [← Option.some.inj hi]
      exact hn.symm
    · split at hi
      · obtain ⟨r, hr, rfl⟩ := Option.map_eq_some_iff.mp hi
        obtain ⟨r', hr', hid⟩ := hrow
        have hr : lookup Entity.localPair (p.target.artifact.id, "function:" ++ p.target.key)
            (p.replaced t).entities = some r := hr
        have hpair : p.target.function.localPair =
            (p.target.artifact.id, "function:" ++ p.target.key) := by
          unfold Entity.localPair
          rw [ha, hl, hkey]
          rfl
        rw [hpair, hr] at hr'
        obtain rfl := Option.some.inj hr'
        exact hid
      · cases hi

end Publish

/-! ## 4. Current functions stay current -/

/-- The row `m` is the one of the function, and the function is current with it. -/
structure StaysCurrent (f : String) (m : Materialization) (t : Tables) : Prop where
  mem : m ∈ t.materializations
  id : m.functionId = f
  only : ∀ m' ∈ t.materializations, m'.functionId = f → m' = m
  build : m.OfBuild
  manifest : t.ManifestComplete f

section StaysCurrent

variable {f : String} {m : Materialization} {t t' : Tables}

/-- The row of a function that has one. -/
theorem materialization_of_only (hm : m ∈ t.materializations) (hid : m.functionId = f)
    (honly : ∀ m' ∈ t.materializations, m'.functionId = f → m' = m) :
    t.materialization f = some m := by
  cases hl : t.materialization f with
  | none => exact absurd hid (lookup_eq_none_iff.mp hl m hm)
  | some m' => exact congrArg some (honly m' (mem_of_lookup hl) (key_of_lookup hl))

theorem StaysCurrent.current (h : StaysCurrent f m t) : t.Current f :=
  ⟨⟨m, materialization_of_only h.mem h.id h.only, h.build⟩, h.manifest⟩

/-- An update of other rows. -/
theorem StaysCurrent.update (h : StaysCurrent f m t) {p : Materialization → Bool}
    {g : Materialization → Materialization} (hp : p m = false)
    (hg : ∀ m, (g m).functionId = m.functionId)
    (hm : t'.materializations = updateWhere p g t.materializations)
    (hman : t'.ManifestComplete f) : StaysCurrent f m t' where
  mem := by
    rw [hm]
    exact mem_updateWhere.mpr ⟨m, h.mem, by rw [hp]; rfl⟩
  id := h.id
  only m' hm' hf := by
    rw [hm] at hm'
    obtain ⟨m₀, hm₀, rfl⟩ := mem_updateWhere.mp hm'
    have hid : m₀.functionId = f := by
      by_cases hpm : p m₀ = true
      · rw [if_pos hpm, hg] at hf
        exact hf
      · rw [if_neg hpm] at hf
        exact hf
    obtain rfl := h.only m₀ hm₀ hid
    rw [hp]
    rfl
  build := h.build
  manifest := hman

variable {env : Environment} {graph : String → String → Outcome} {d : MaterializeDraw}
  {handle : String} {db db' : Database}

/-- A claim, and then a failure, of another function. -/
theorem StaysCurrent.claim (h : StaysCurrent f m db.toTables) {io : Faults} {c : ClaimDraw} {target : Target}
    (hne : target.handle ≠ f) (hc : claimFunction io c target db = .ok db') :
    StaysCurrent f m db'.toTables := by
  obtain ⟨_, _, _, _, ht⟩ := claimFunction_ok hc
  have hid : m.functionId ≠ target.handle := h.id ▸ hne.symm
  refine h.update (p := fun m => m.functionId = target.handle && m.claimable c.now)
    (g := Materialization.claimed c.owner c.claimedAt) (by simp [hid]) (fun _ => rfl) (by rw [ht]) ?_
  refine ManifestComplete.of_rows h.manifest ?_
  unfold Tables.completedRows
  rw [ht]

theorem StaysCurrent.fail (h : StaysCurrent f m db.toTables) {io : Faults} {target : Target}
    {run owner message : String} {endedAt : Time} (hne : target.handle ≠ f)
    (hc : failFunction io target run owner message endedAt db = .ok db') :
    StaysCurrent f m db'.toTables := by
  have ht := failFunction_ok hc
  have hid : m.functionId ≠ target.handle := h.id ▸ hne.symm
  refine h.update (p := fun m => m.functionId = target.handle && m.claimOwner = some owner)
    (g := Materialization.failed (errorJson message)) (by simp [hid]) (fun _ => rfl) (by rw [ht]) ?_
  refine ManifestComplete.of_rows h.manifest ?_
  unfold Tables.completedRows
  rw [ht]

/-- **The analysis of another function keeps a current function current**, whichever function
    its stream names: the row has an owner of its own. -/
theorem StaysCurrent.materialize (h : StaysCurrent f m db.toTables) {refresh : Bool}
    {result : Except Thrown Materialized} (hne : handle ≠ f)
    (howner : m.claimOwner ≠ some d.claim.owner)
    (hrun : MaterializeRun env graph d handle refresh db db' result) : StaysCurrent f m db'.toTables := by
  cases hrun with
  | answered | refused => exact h
  | abandoned henter hclaim =>
    exact h.claim ((enter_analyse henter).2.1.symm ▸ hne) hclaim
  | failed henter hclaim hfail =>
    have hne := (enter_analyse henter).2.1.symm ▸ hne
    exact (h.claim hne hclaim).fail hne hfail
  | published henter hclaim hgraph hpublish =>
    have h₁ := h.claim ((enter_analyse henter).2.1.symm ▸ hne) hclaim
    obtain ⟨_, hm, _⟩ := Publish.exec_tested hpublish
    refine h₁.update (p := fun m => m.functionId = _ && m.claimOwner = some d.claim.owner)
      (g := Materialization.published d.claim.runId) (by simp [howner]) (fun _ => rfl) hm ?_
    exact (Publish.exec_manifest hpublish).2 f h₁.manifest

/-- **A current function stays current under every materialization on demand.** -/
theorem StaysCurrent.ensure (h : StaysCurrent f m db.toTables) (howner : m.claimOwner ≠ some d.claim.owner)
    {result : Except Thrown Unit}
    (hm : ensureMaterialized env graph d handle db = (db', result)) : StaysCurrent f m db'.toTables := by
  cases ensureMaterialized_run hm with
  | nothing => exact h
  | @materialized entity function db' result _ _ _ hstale hrun =>
    refine h.materialize (fun he => ?_) howner (materialize_run hrun)
    have hcur := (cacheCurrent_iff db.constraints).mpr (he.symm ▸ h.current)
    rw [hstale] at hcur
    cases hcur

end StaysCurrent

/-! ## 5. An analysis makes its function current -/

section Analysis

variable {env : Environment} {graph : String → String → Outcome} {d : MaterializeDraw}
  {f handle : String} {db db' : Database}

/-- The row of a function after its claim and its publish. -/
def Materialization.analysed (d : ClaimDraw) (m : Materialization) : Materialization :=
  (m.claimed d.owner d.claimedAt).published d.runId

/-- **A refreshing `materialize` of a defined function that ends well leaves it current**,
    with a run that was not there before. -/
theorem materialize_current (hf : db.Defined f) {result : Materialized}
    (hrun : MaterializeRun env graph d f true db db' (.ok result)) :
    ∃ m₀ ∈ db.materializations, m₀.functionId = f ∧ StaysCurrent f (m₀.analysed d.claim) db'.toTables ∧
      d.claim.runId ∉ db.runIds := by
  obtain ⟨m₀, hm₀, hid, hstatus, honly⟩ := hf.row
  obtain ⟨e, a, key, he, hkind, ha, hlocal, hname⟩ := hf.entity
  cases hrun with
  | answered henter =>
    -- a refresh answers only for a declaration
    have hrow := materialization_of_only hm₀ hid honly
    unfold enter artifactOrThrow Tables.function at henter
    rw [he, Option.filter_some, if_pos (decide_eq_true hkind)] at henter
    simp only [ha, hrow, Option.any_some, hstatus, Bool.not_true, Bool.false_and,
      decide_false, Bool.false_eq_true, if_false] at henter
    cases henter
  | @published target db₁ _ records henter hclaim hgraph hpublish =>
    obtain ⟨hfn, hhandle, hart⟩ := enter_analyse henter
    have htarget : target = ⟨e, a⟩ := by
      unfold Tables.function at hfn
      rw [he, Option.filter_some, if_pos (decide_eq_true hkind)] at hfn
      obtain ⟨fn, art⟩ := target
      obtain rfl : e = fn := Option.some.inj hfn
      rw [ha] at hart
      obtain rfl : a = art := Option.some.inj hart
      rfl
    obtain ⟨inv, _, hone, hnew, ht₁⟩ := claimFunction_ok hclaim
    have hnamed : (Publish.of target d.claim.runId d.claim.owner d.publish records).functionId
        ((Publish.of target d.claim.runId d.claim.owner d.publish records).localIds
          ((Publish.of target d.claim.runId d.claim.owner d.publish records).replaced
            db₁.toTables)) = f := by
      rw [← hhandle]
      have hlocal' : target.function.localKey = functionLocal key := by
        rw [htarget]
        exact hlocal
      refine Publish.functionId_of_named db₁.constraints ?_ ?_ ?_ hlocal'
      · rw [ht₁, htarget]
        exact mem_of_lookup he
      · rw [htarget]
        exact key_of_lookup ha
      · show target.handle = entityId target.artifact (functionLocal target.key)
        rw [Target.key_of_functionLocal hlocal', htarget, ← hlocal]
        exact hname
    have hclaimable : m₀.claimable d.claim.now = true := by
      -- one row was claimed, and the function has no other
      unfold Tables.claimableFunctions at hone
      obtain ⟨m, hm⟩ := List.exists_mem_of_length_pos (by omega :
        0 < (db.materializations.filter fun m =>
          m.functionId = target.handle && m.claimable d.claim.now).length)
      obtain ⟨hmem, hp⟩ := List.mem_filter.mp hm
      rw [Bool.and_eq_true, decide_eq_true_eq, hhandle] at hp
      rw [← honly m hmem hp.1]
      exact hp.2
    obtain ⟨_, hmats, _⟩ := Publish.exec_tested hpublish
    obtain ⟨hman, _⟩ := Publish.exec_manifest hpublish
    rw [hnamed] at hmats hman
    have hmats₁ : db₁.materializations = updateWhere
        (fun m => m.functionId = f && m.claimable d.claim.now)
        (Materialization.claimed d.claim.owner d.claim.claimedAt) db.materializations := by
      rw [ht₁, hhandle]
    have hmats : db'.materializations = updateWhere
        (fun m => m.functionId = f && m.claimOwner = some d.claim.owner)
        (Materialization.published d.claim.runId) db₁.materializations := hmats
    have hg₁ : (decide (m₀.functionId = f) && m₀.claimable d.claim.now) = true := by
      simp [hid, hclaimable]
    have hg₂ : (decide ((m₀.claimed d.claim.owner d.claim.claimedAt).functionId = f) &&
        decide ((m₀.claimed d.claim.owner d.claim.claimedAt).claimOwner = some d.claim.owner)) =
        true := by
      simp [Materialization.claimed, hid]
    refine ⟨m₀, hm₀, hid, ⟨?_, hid, fun m' hm' hm'f => ?_, ⟨rfl, rfl, rfl, rfl⟩, hman⟩, hnew⟩
    · rw [hmats, hmats₁]
      refine mem_updateWhere.mpr ⟨m₀.claimed d.claim.owner d.claim.claimedAt,
        mem_updateWhere.mpr ⟨m₀, hm₀, (if_pos hg₁).symm⟩, (if_pos hg₂).symm⟩
    · rw [hmats, hmats₁] at hm'
      obtain ⟨m₂, hm₂, rfl⟩ := mem_updateWhere.mp hm'
      obtain ⟨m₁, hm₁, rfl⟩ := mem_updateWhere.mp hm₂
      have hm₁f : m₁.functionId = f := by
        by_contra hne
        have h₁ : (if (decide (m₁.functionId = f) && m₁.claimable d.claim.now) = true then
            m₁.claimed d.claim.owner d.claim.claimedAt else m₁) = m₁ := if_neg (by simp [hne])
        rw [h₁, if_neg (by simp [hne])] at hm'f
        exact hne hm'f
      obtain rfl := honly m₁ hm₁ hm₁f
      rw [if_pos hg₁, if_pos hg₂]
      rfl

end Analysis

/-! ## 6. Queries -/

section Queries

variable {env : Environment} {graph : String → String → Outcome}
  {draw : Nat → Nat → MaterializeDraw} {f : String} {m : Materialization} {db db' : Database}

/-- For a handle within a defined function the materialization on demand is one test and a
    refreshing `materialize` of the function. -/
theorem ensureMaterialized_within {d : MaterializeDraw} {handle : String} (hf : db.Defined f)
    (hh : db.Within f handle) :
    ensureMaterialized env graph d handle db =
      if (db.materialization f).any (cacheCurrent db.toTables) = true then (db, .ok ())
      else ((materialize env graph d f true db).1,
        (materialize env graph d f true db).2.map fun _ => ()) := by
  obtain ⟨m₀, hm₀, hid, hstatus, honly⟩ := hf.row
  have hdecl : (db.materialization f).any (·.status = .declarationOnly) = false := by
    rw [materialization_of_only hm₀ hid honly, Option.any_some]
    exact decide_eq_false hstatus
  obtain ⟨e, he, hfn⟩ : ∃ e, db.entity handle = some e ∧
      (if e.kind = "function" then some handle else e.functionId) = some f := by
    rcases hh with rfl | ⟨e, he, hkind, ho⟩
    · obtain ⟨e, _, _, he, hkind, _⟩ := hf.entity
      exact ⟨e, he, if_pos hkind⟩
    · exact ⟨e, he, (if_neg hkind).trans ho⟩
  unfold ensureMaterialized
  simp only [he, hfn, hdecl, Bool.false_eq_true, if_false]
  split
  · rfl
  · rcases materialize env graph d f true db with ⟨db₁, e | r⟩
    · rfl
    · rfl

/-- The row kept is kept through any number of materializations on demand. -/
theorem StaysCurrent.steps (h : StaysCurrent f m db.toTables)
    (howner : ∀ i j, m.claimOwner ≠ some (draw i j).claim.owner)
    (hsteps : Relation.ReflTransGen (EnsureStep env graph draw) db db') : StaysCurrent f m db'.toTables := by
  induction hsteps with
  | refl => exact h
  | tail _ hstep ih =>
    obtain ⟨i, j, handle, rfl⟩ := hstep
    exact ih.ensure (howner i j) rfl

/-- **Queries answer only from current analysis.** A query on a defined function, or on an
    entity it owns, that returns leaves the function current; it has analysed the function if
    and only if it was not current before, which is what the cache test of `materialize`
    decides too. -/
theorem queries_answer_from_current_analysis {q : Query} {out : Response} (hf : db.Defined f)
    (hq : ∀ handle, q ≠ .expand handle) (hh : db.Within f q.handle)
    (hdraw : ∀ m ∈ db.materializations, m.functionId = f →
      ∀ i j, m.claimOwner ≠ some (draw i j).claim.owner)
    (h : q.perform env graph draw db = (db', .ok out)) :
    db'.Current f ∧ (db.Reanalysed db'.toTables f ↔ ¬ db.Current f) ∧
      ((∃ run, enter db.toTables f false = .ok (.answered (.cached run))) ↔ db.Current f) := by
  obtain ⟨m₀, hm₀, hid, hstatus, honly⟩ := hf.row
  have hrow := materialization_of_only hm₀ hid honly
  have htest : (∃ run, enter db.toTables f false = .ok (.answered (.cached run))) ↔
      db.Current f := by
    obtain ⟨e, a, key, he, hkind, ha, _⟩ := hf.entity
    obtain ⟨inv, hinv⟩ := investigationId_of_entity db.constraints (mem_of_lookup he)
    have hent : enter db.toTables f false =
        if (db.materialization f).any (cacheCurrent db.toTables) = true then
          .ok (.answered (.cached m₀.analysisRunId)) else .ok (.analyse ⟨e, a⟩) := by
      unfold enter artifactOrThrow Tables.function
      rw [he, Option.filter_some, if_pos (decide_eq_true hkind)]
      simp only [ha, hrow, Option.any_some, hstatus, hinv, Bool.not_false, Bool.true_and,
        decide_false, Bool.false_eq_true, if_false, Option.bind_some]
      rfl
    rw [← cacheCurrent_iff db.constraints, hent]
    split
    · rename_i hc
      exact ⟨fun _ => hc, fun _ => ⟨_, rfl⟩⟩
    · rename_i hc
      refine ⟨fun hr => ?_, fun h => absurd h hc⟩
      obtain ⟨run, hr⟩ := hr
      cases hr
  obtain ⟨db₁, hens, hsteps⟩ := Query.perform_ok hq h
  rw [ensureMaterialized_within hf hh] at hens
  by_cases hc : db.Current f
  · rw [if_pos ((cacheCurrent_iff db.constraints).mpr hc)] at hens
    cases hens
    obtain ⟨⟨m, hm, hbuild⟩, hman⟩ := hc
    obtain rfl : m₀ = m := Option.some.inj (hrow.symm.trans hm)
    have hkept : StaysCurrent f m₀ db'.toTables :=
      StaysCurrent.steps ⟨hm₀, hid, honly, hbuild, hman⟩ (hdraw m₀ hm₀ hid) hsteps
    refine ⟨hkept.current, ⟨fun hre => ?_, fun hn => absurd ⟨⟨m₀, hm, hbuild⟩, hman⟩ hn⟩, htest⟩
    -- the run of the row was there before
    obtain ⟨m', run, hm', hrun, hnew⟩ := hre
    rw [materialization_of_only hkept.mem hkept.id hkept.only] at hm'
    obtain rfl := Option.some.inj hm'
    have hrefs := (db.constraints.materializationRefs m₀ hm₀).2.2
    rw [hrun, refers_some] at hrefs
    exact absurd hrefs hnew
  · rw [if_neg (fun ht => hc ((cacheCurrent_iff db.constraints).mp ht))] at hens
    cases hmat : (materialize env graph (draw 0 0) f true db).2 with
    | error e =>
      rw [hmat] at hens
      cases hens
    | ok r =>
      rw [hmat] at hens
      cases hens
      obtain ⟨m₁, hm₁, hid₁, hkept₁, hnew⟩ := materialize_current hf
        (materialize_run (Prod.ext rfl hmat))
      have hkept : StaysCurrent f (m₁.analysed (draw 0 0).claim) db'.toTables :=
        StaysCurrent.steps hkept₁ (fun i j ho => by cases ho) hsteps
      refine ⟨hkept.current, ⟨fun _ => hc, fun _ => ?_⟩, htest⟩
      exact ⟨_, _, materialization_of_only hkept.mem hkept.id hkept.only, rfl, hnew⟩

end Queries

/-- A catalogued function is shown: it is analysed first. -/
theorem queries_answer_from_current_analysis_catalogued :
    ∃ db' out, (Query.view Scenario.handle "summary" none 100).perform Sample.environment
        (fun _ _ => .ok Scenario.stream) (fun _ _ => Sample.draw) Scenario.catalogued.db =
          (db', .ok out) ∧
      db'.Current Scenario.handle ∧
      Scenario.catalogued.db.Reanalysed db'.toTables Scenario.handle := by
  have hok : ((Query.view Scenario.handle "summary" none 100).perform Sample.environment
      (fun _ _ => .ok Scenario.stream) (fun _ _ => Sample.draw)
        Scenario.catalogued.db).2.toBool = true := by decide +kernel
  generalize h : (Query.view Scenario.handle "summary" none 100).perform Sample.environment
    (fun _ _ => .ok Scenario.stream) (fun _ _ => Sample.draw) Scenario.catalogued.db = x at hok ⊢
  obtain ⟨db', e | out⟩ := x
  · cases hok
  · have hnot : ¬ Scenario.catalogued.db.Current Scenario.handle := by
      rw [← cacheCurrent_iff Scenario.catalogued.db.constraints]
      decide
    have hfree : ∀ m ∈ Scenario.catalogued.db.materializations,
        m.claimOwner ≠ some Sample.draw.claim.owner := by decide
    obtain ⟨hcur, hre, _⟩ := queries_answer_from_current_analysis
      ⟨⟨_, _, "f0", rfl, rfl, rfl, rfl, rfl⟩, ⟨_, List.mem_cons_self, rfl, by decide, by decide⟩⟩
      (fun _ => Query.noConfusion) (.inl rfl) (fun m hm _ _ _ => hfree m hm) h
    exact ⟨db', out, rfl, hcur, hre.mpr hnot⟩

end Irez
