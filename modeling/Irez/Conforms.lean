/-
  File:      Irez/Conforms.lean
  Subject:   What the tables hold of files whose contents do not change, and that catalogs
             keep it.

  The adapter is deterministic: a call reads the module the stored file holds, or fails. Where
  no function bears the key of a later function with a body, every stream is the function's
  own (Refresh.lean), and the tables can be said in closed form:

  * `Contents`, `Attempt`, `History` -- the calls, each of which succeeds or fails somewhere;
  * `Contents.Holds`, `Conforms` -- a function's entity and row, and its snapshot: none while
    no run is recorded, and the rows of the function's stream after that;
  * `Conforms.entry`, `Conforms.recatalogued` -- a catalog keeps this, and brings every
    function to what its entry says.
-/
import Irez.Filing
import Irez.Outline
import Irez.Selection

open Irez.Basis

namespace Irez

/-! ## 1. Contents and calls -/

/-- What the files stored hold, by the id of the artifact, and what LLVM answers of them. -/
structure Contents where
  module : String → Module
  postDominators : Function → PostDominatorTree
  graphs : ∀ F, (postDominators F).Over F

/-- No function bears the key of a later function with a body as its name. -/
def Module.Unambiguous (M : Module) : Prop :=
  ∀ (K : Nat) (F : Function), M.functions[K]? = some F → F.isDeclaration = false →
    ∀ J < K, ∀ G : Function, M.functions[J]? = some G → G.name ≠ functionKey K

namespace Contents

variable (C : Contents)

/-- The stream of one function of an artifact. -/
def stream (artifactId key : String) : List Record :=
  functionGraph C.postDominators (C.module artifactId) key

/-- The adapter's catalog of an artifact, or a failure. -/
def Catalogs (a : Artifact) (outcome : Outcome) : Prop :=
  ∀ records, accept outcome = .ok records → records = catalog (C.module a.id)

/-- The adapter's stream for a target, or a failure. -/
def Analyses (target : Target) (outcome : Outcome) : Prop :=
  ∀ records, accept outcome = .ok records → records = C.stream target.artifact.id target.key

/-- It is asked of the modules of all ids, though a run meets some of their functions only: an id
    that is never stored may have any module here. -/
def Unambiguous : Prop := ∀ id, (C.module id).Unambiguous

end Contents

/-- One call of a single process, or one part of `ingest`, that succeeds or fails. -/
inductive Attempt (C : Contents) : Database → Database → Prop where
  | store {io : Faults} {a : Artifact} {db db' : Database} (ha : a.WellNamed)
      (h : exec io (.insertArtifact a) db = .ok db') : Attempt C db db'
  | mark {io : Faults} {s : Statement} {db db' : Database} {id : String}
      (hs : s = .requestFull id ∨ s = .completeFull id) (h : exec io s db = .ok db') :
      Attempt C db db'
  | catalog {env : Environment} {graph : String → Outcome} {d : CatalogDraw} {a : Artifact}
      {index : IndexLevel} {db db' : Database} {result : Except Thrown Unit}
      (ha : db.Stores a) (hg : C.Catalogs a (graph a.storedPath))
      (h : refreshCatalog env graph d a index db = (db', result)) : Attempt C db db'
  | materialize {env : Environment} {graph : String → String → Outcome} {d : MaterializeDraw}
      {handle : String} {refresh : Bool} {db db' : Database} {result : Except Thrown Materialized}
      (hg : ∀ target, enter db.toTables handle refresh = .ok (.analyse target) →
        C.Analyses target (graph target.artifact.storedPath target.key))
      (h : materialize env graph d handle refresh db = (db', result)) : Attempt C db db'

/-- The states after a history that starts from an initialized state. -/
def History (C : Contents) (db : Database) : Prop :=
  ∃ db₀ : Database, db₀.Fresh ∧ Relation.ReflTransGen (Attempt C) db₀ db

/-! ## 2. Streams of unambiguous modules -/

theorem Module.Unambiguous.select {M : Module} (h : M.Unambiguous) {K : Nat} {F : Function}
    (hF : M.functions[K]? = some F) (hd : F.isDeclaration = false) :
    selectFunction (functionKey K) 0 M.functions = some (K, F) :=
  (selectFunction_iff hF).mpr (h K F hF hd)

/-- The stream of a function that its key selects is its own. -/
theorem ownStream_of_select {pd : Function → PostDominatorTree} (hpd : ∀ F, (pd F).Over F)
    {M : Module} {K : Nat} {F : Function}
    (h : selectFunction (functionKey K) 0 M.functions = some (K, F)) :
    OwnStream (functionKey K) (functionGraph pd M (functionKey K)) where
  entities e he := functionGraph_scoped h (mem_entityRecords.mp he)
  endpoints r hr l hl := by
    rw [functionGraph_eq h] at hr ⊢
    have hdecl := (Selected.relation_declared (S := ⟨M, K, F⟩) (hpd F) hr).2
    have hl' : Selected.Declared ⟨M, K, F⟩ (pd F) l := by
      rcases hl with rfl | rfl
      · exact hdecl.1
      · exact hdecl.2
    rcases hl' with hm | ⟨f, _, hk⟩
    · exact Or.inl hm
    · exact Or.inr ⟨f.key, hk⟩
  sources s hs := by
    obtain ⟨e, he, hl, hkind⟩ := functionGraph_source h (mem_sourceRecords.mp hs)
    refine ⟨e, mem_entityRecords.mpr he, ?_, hl⟩
    unfold EntityRecord.interior
    rw [hkind]
    decide

/-- The function records of a catalog: the entry of each function. -/
def catalogEntry (F : Function) (K : Nat) : FunctionRecord :=
  { key := functionKey K, ordinal := K, name := F.name, declaration := F.isDeclaration,
    linkage := toString F.linkage, signature := F.signature,
    bodyFingerprint := if F.isDeclaration then "" else F.fingerprint }

theorem functionRecords_catalog (M : Module) :
    functionRecords (catalog M) = M.functions.zipIdx.map fun FK => catalogEntry FK.1 FK.2 := by
  unfold functionRecords catalog
  rw [List.filterMap_append, List.filterMap_map]
  rw [← List.filterMap_eq_map]
  rfl

theorem mem_functionRecords {M : Module} {f : FunctionRecord} :
    f ∈ functionRecords (catalog M) ↔ ∃ K F, M.functions[K]? = some F ∧ f = catalogEntry F K := by
  rw [functionRecords_catalog, List.mem_map]
  constructor
  · rintro ⟨⟨F, K⟩, hm, rfl⟩
    exact ⟨K, F, List.mem_zipIdx_iff_getElem?.mp hm, rfl⟩
  · rintro ⟨K, F, hF, rfl⟩
    exact ⟨(F, K), List.mem_zipIdx_iff_getElem?.mpr hF, rfl⟩

/-! ## 3. The invariant -/

/-- No table of a snapshot holds a row of the function. -/
structure Tables.Bare (t : Tables) (f : String) : Prop where
  entities : ∀ x ∈ t.entities, x.functionId ≠ some f
  relations : t.relationsOf f = []
  sources : t.sourcesOf f = []
  capabilities : t.capabilitiesOf f = []

/-- The function's rows are those of the publish, and the globals it names have theirs. -/
structure Tables.HoldsSnapshot (t : Tables) (p : Publish) : Prop where
  entities : ∀ x : Entity, (x ∈ t.entities ∧ x.functionId = some p.target.handle) ↔
    ∃ e ∈ p.entities, e.interior = true ∧ x = p.ownedRow e
  relations : t.relationsOf p.target.handle = p.relations.map p.snapshotRelation
  sources : t.sourcesOf p.target.handle = p.sources.map p.snapshotSource
  capabilities : t.capabilitiesOf p.target.handle =
    kMaterializationCapabilities.map p.snapshotCapability
  globals : ∀ e ∈ p.entities, e.kind = "global" → entityRow p.target.artifact e ∈ t.entities

/-- The row of a function: the columns its catalog entry gives it, and the three that say how
    far it is. -/
def FunctionRecord.faceRow (f : FunctionRecord) (a : Artifact) (attributes : Attributes)
    (text : Option String) (state : EntityState) : Entity :=
  { f.entityRow a with attributes := attributes, exactText := text, materialization := state }

namespace Contents

variable (C : Contents)

/-- A publish of the stream of the function `K`. -/
structure Publishes (a : Artifact) (K : Nat) (p : Publish) : Prop where
  entities : p.entities = entityRecords (C.stream a.id (functionKey K))
  relations : p.relations = relationRecords (C.stream a.id (functionKey K))
  sources : p.sources = sourceRecords (C.stream a.id (functionKey K))
  id : p.target.artifact.id = a.id
  sha : p.target.artifact.contentSha256 = a.contentSha256
  handle : p.target.handle = entityId a (functionLocal (functionKey K))

/-- **How the function `F`, the `K`-th of its module, stands**: its entity `e`, its row `m`, and
    the rows of its snapshot where a run is recorded. -/
structure Holds (t : Tables) (a : Artifact) (K : Nat) (F : Function) (e : Entity)
    (m : Materialization) : Prop where
  stores : t.Stores a
  function : (C.module a.id).functions[K]? = some F
  entity : e ∈ t.entities
  row : m ∈ t.materializations
  artifact : m.artifactId = a.id
  handle : m.functionId = e.id
  face : ∃ attributes text state, e = (catalogEntry F K).faceRow a attributes text state
  declared : F.isDeclaration = true →
    e = (catalogEntry F K).faceRow a (catalogEntry F K).attributes none .declarationOnly ∧
      m = (catalogEntry F K).materializationRow a
  defined : F.isDeclaration = false →
    e.materialization ≠ .declarationOnly ∧ m.status ≠ .declarationOnly
  absent : m.analysisRunId = none → t.Bare e.id
  present : ∀ run, m.analysisRunId = some run →
    ∃ p, C.Publishes a K p ∧ p.run = run ∧ t.HoldsSnapshot p

/-- The row of a global that a function's stream declares. -/
def GlobalRow (t : Tables) (x : Entity) : Prop :=
  ∃ a K F e, t.Stores a ∧ (C.module a.id).functions[K]? = some F ∧ F.isDeclaration = false ∧
    e ∈ entityRecords (C.stream a.id (functionKey K)) ∧ e.kind = "global" ∧ x = entityRow a e

end Contents

/-- **The tables conform to the contents.** -/
structure Conforms (C : Contents) (t : Tables) : Prop where
  sound : Sound .scoped t
  functions : ∀ e ∈ t.entities, e.kind = "function" → ∃ a K F m, C.Holds t a K F e m
  materializations : ∀ m ∈ t.materializations, ∃ e ∈ t.entities, e.kind = "function" ∧
    m.functionId = e.id ∧ m.artifactId = e.artifactId
  owners : ∀ f, (∀ e ∈ t.entities, e.id = f → e.kind ≠ "function") → t.Bare f
  globals : ∀ x ∈ t.entities, x.kind = "global" → C.GlobalRow t x

theorem Conforms.fresh (C : Contents) {t : Tables} (h : t.Fresh) : Conforms C t where
  sound := .fresh _ h
  functions e he := by
    rw [h.entities] at he
    exact absurd he List.not_mem_nil
  materializations m hm := by
    rw [h.materializations] at hm
    exact absurd hm List.not_mem_nil
  owners f _ := by
    refine ⟨fun x hx => ?_, ?_, ?_, ?_⟩
    · rw [h.entities] at hx
      exact absurd hx List.not_mem_nil
    · rw [Tables.relationsOf, h.relations, List.filter_nil]
    · rw [Tables.sourcesOf, h.sourceLocations, List.filter_nil]
    · rw [Tables.capabilitiesOf, h.capabilities, List.filter_nil]
  globals x hx := by
    rw [h.entities] at hx
    exact absurd hx List.not_mem_nil

/-! ## 4. Rows that stay -/

section Stay

variable {C : Contents} {t t' : Tables} {f : String}

theorem Tables.Bare.of_same (h : t.Bare f) (hs : SameRows f t t') : t'.Bare f where
  entities x hx ho := h.entities x ((hs.entities x ho).mp hx) ho
  relations := hs.relations.trans h.relations
  sources := hs.sources.trans h.sources
  capabilities := hs.capabilities.trans h.capabilities

theorem Tables.HoldsSnapshot.of_same {p : Publish} (h : t.HoldsSnapshot p)
    (hs : SameRows p.target.handle t t')
    (hg : ∀ x ∈ t.entities, x.kind = "global" → x ∈ t'.entities) : t'.HoldsSnapshot p where
  entities x := by
    rw [← h.entities x]
    exact and_congr_left fun ho => hs.entities x ho
  relations := hs.relations.trans h.relations
  sources := hs.sources.trans h.sources
  capabilities := hs.capabilities.trans h.capabilities
  globals e he hk := hg _ (h.globals e he hk) hk

/-- The same rows where entities with an owner and three tables are the same. -/
theorem SameRows.of_owned (he : ∀ x : Entity, x.functionId.isSome → (x ∈ t'.entities ↔ x ∈ t.entities))
    (hr : t'.relations = t.relations) (hs : t'.sourceLocations = t.sourceLocations)
    (hc : t'.capabilities = t.capabilities) : SameRows f t t' where
  entities x ho := he x (by rw [ho]; rfl)
  relations := by rw [Tables.relationsOf, Tables.relationsOf, hr]
  sources := by
    unfold Tables.sourcesOf
    rw [hs]
    refine List.filter_congr fun s _ => decide_eq_decide.mpr ?_
    rw [mem_owned, mem_owned]
    exact exists_congr fun x => and_congr_left fun ho => he x (by rw [ho.1]; rfl)
  capabilities := by rw [Tables.capabilitiesOf, Tables.capabilitiesOf, hc]

/-- A function's entity and row stay, and its snapshot's rows. -/
theorem Contents.Holds.of_same {a : Artifact} {K : Nat} {F : Function} {e : Entity}
    {m : Materialization} (h : C.Holds t a K F e m) (ha : t'.Stores a) (he : e ∈ t'.entities)
    (hm : m ∈ t'.materializations) (hs : SameRows e.id t t')
    (hg : ∀ x ∈ t.entities, x.kind = "global" → x ∈ t'.entities) : C.Holds t' a K F e m where
  stores := ha
  function := h.function
  entity := he
  row := hm
  artifact := h.artifact
  handle := h.handle
  face := h.face
  declared := h.declared
  defined := h.defined
  absent hn := (h.absent hn).of_same hs
  present run hrun := by
    obtain ⟨p, hp, hprun, hsnap⟩ := h.present run hrun
    have hid : p.target.handle = e.id := by
      obtain ⟨_, _, _, rfl⟩ := h.face
      exact hp.handle
    exact ⟨p, hp, hprun, hsnap.of_same (hid ▸ hs) hg⟩

/-- What a row of `materializations` keeps through claims and failures. -/
structure Materialization.Kept (m m' : Materialization) : Prop where
  artifact : m'.artifactId = m.artifactId
  function : m'.functionId = m.functionId
  run : m'.analysisRunId = m.analysisRunId
  defined : m.status ≠ .declarationOnly ∧ m'.status ≠ .declarationOnly

/-- Calls that touch artifacts, runs and the states of rows only. -/
theorem Conforms.of_rows (h : Conforms C t) (hsound : Sound .scoped t')
    (ha : ∀ a, t.Stores a → t'.Stores a) (he : t'.entities = t.entities)
    (hr : t'.relations = t.relations) (hs : t'.sourceLocations = t.sourceLocations)
    (hc : t'.capabilities = t.capabilities) (g : Materialization → Materialization)
    (hm : t'.materializations = t.materializations.map g)
    (hg : ∀ m ∈ t.materializations, g m = m ∨ m.Kept (g m)) : Conforms C t' := by
  have hsame : ∀ f, SameRows f t t' := fun f => .of_owned (fun x _ => by rw [he]) hr hs hc
  have hglobal : ∀ x ∈ t.entities, x.kind = "global" → x ∈ t'.entities := fun x hx _ => he ▸ hx
  have hcols : ∀ m ∈ t.materializations, (g m).artifactId = m.artifactId ∧
      (g m).functionId = m.functionId ∧ (g m).analysisRunId = m.analysisRunId := by
    intro m hm
    rcases hg m hm with hsame | hkept
    · rw [hsame]
      exact ⟨rfl, rfl, rfl⟩
    · exact ⟨hkept.artifact, hkept.function, hkept.run⟩
  refine ⟨hsound, fun e hem hk => ?_, fun m' hm' => ?_, fun f hf => ?_, fun x hx hk => ?_⟩
  · rw [he] at hem
    obtain ⟨a, K, F, m, hh⟩ := h.functions e hem hk
    obtain ⟨hart, hfn, hrun⟩ := hcols m hh.row
    refine ⟨a, K, F, g m, ⟨ha a hh.stores, hh.function, he ▸ hem, ?_, hart.trans hh.artifact,
      hfn.trans hh.handle, hh.face, fun hd => ?_, fun hd => ?_, fun hn => ?_, fun run hr' => ?_⟩⟩
    · rw [hm]
      exact List.mem_map_of_mem hh.row
    · obtain ⟨hface, hrow⟩ := hh.declared hd
      refine ⟨hface, ?_⟩
      rcases hg m hh.row with hsame | hkept
      · rw [hsame]
        exact hrow
      · refine absurd ?_ hkept.defined.1
        rw [hrow]
        exact if_pos hd
    · refine ⟨(hh.defined hd).1, ?_⟩
      rcases hg m hh.row with hsame | hkept
      · rw [hsame]
        exact (hh.defined hd).2
      · exact hkept.defined.2
    · rw [hrun] at hn
      exact (hh.absent hn).of_same (hsame _)
    · rw [hrun] at hr'
      obtain ⟨p, hp, hprun, hsnap⟩ := hh.present run hr'
      exact ⟨p, hp, hprun, hsnap.of_same (hsame _) hglobal⟩
  · rw [hm] at hm'
    obtain ⟨m, hmem, rfl⟩ := List.mem_map.mp hm'
    obtain ⟨e, hem, hk, hfn, hart⟩ := h.materializations m hmem
    obtain ⟨hart', hfn', _⟩ := hcols m hmem
    exact ⟨e, he ▸ hem, hk, hfn'.trans hfn, hart'.trans hart⟩
  · rw [he] at hf
    exact (h.owners f hf).of_same (hsame f)
  · rw [he] at hx
    obtain ⟨a, K, F, e, hst, hrest⟩ := h.globals x hx hk
    exact ⟨a, K, F, e, ha a hst, hrest⟩

end Stay

/-! ## 5. Names in conforming tables -/

section Names

variable {C : Contents} {t : Tables} {a b : Artifact} {K : Nat} {F : Function} {e : Entity}
  {m : Materialization}

/-- Two names of one stored artifact. -/
theorem Tables.Stores.sha_eq (hc : t.Constraints) (ha : t.Stores a) (hb : t.Stores b)
    (hid : a.id = b.id) : a.contentSha256 = b.contentSha256 := by
  obtain ⟨x, hx, hxid, hxsha⟩ := ha
  obtain ⟨y, hy, hyid, hysha⟩ := hb
  obtain rfl := List.inj_on_of_nodup_map hc.artifactKey hx hy (hxid.trans (hid.trans hyid.symm))
  exact hxsha.symm.trans hysha

theorem FunctionRecord.faceRow_congr (hid : a.id = b.id) (hsha : a.contentSha256 = b.contentSha256)
    (f : FunctionRecord) (attributes : Attributes) (text : Option String) (state : EntityState) :
    f.faceRow a attributes text state = f.faceRow b attributes text state := by
  unfold faceRow entityRow handle
  rw [hid, entityId_congr hsha]

theorem FunctionRecord.materializationRow_congr (hid : a.id = b.id)
    (hsha : a.contentSha256 = b.contentSha256) (f : FunctionRecord) :
    f.materializationRow a = f.materializationRow b := by
  unfold materializationRow handle
  rw [hid, entityId_congr hsha]

/-- The columns a face fixes. -/
theorem Contents.Holds.cols (h : C.Holds t a K F e m) :
    e.id = entityId a (functionLocal (functionKey K)) ∧ e.artifactId = a.id ∧
      e.localKey = functionLocal (functionKey K) ∧ e.kind = "function" ∧ e.functionId = none := by
  obtain ⟨_, _, _, rfl⟩ := h.face
  exact ⟨rfl, rfl, rfl, rfl, rfl⟩

/-- A function stands the same under another name of its artifact. -/
theorem Contents.Holds.congr (h : C.Holds t a K F e m) (hb : t.Stores b) (hid : a.id = b.id)
    (hsha : a.contentSha256 = b.contentSha256) : C.Holds t b K F e m where
  stores := hb
  function := hid ▸ h.function
  entity := h.entity
  row := h.row
  artifact := h.artifact.trans hid
  handle := h.handle
  face := by
    obtain ⟨attributes, text, state, he⟩ := h.face
    exact ⟨attributes, text, state, he.trans (FunctionRecord.faceRow_congr hid hsha _ _ _ _)⟩
  declared hd := by
    obtain ⟨he, hm⟩ := h.declared hd
    exact ⟨he.trans (FunctionRecord.faceRow_congr hid hsha _ _ _ _),
      hm.trans (FunctionRecord.materializationRow_congr hid hsha _)⟩
  defined := h.defined
  absent := h.absent
  present run hrun := by
    obtain ⟨p, hp, hprun, hsnap⟩ := h.present run hrun
    exact ⟨p, ⟨hid ▸ hp.entities, hid ▸ hp.relations, hid ▸ hp.sources, hp.id.trans hid,
      hp.sha.trans hsha, hp.handle.trans (entityId_congr hsha _)⟩, hprun, hsnap⟩

/-- The function a row of a stored artifact is. -/
theorem Conforms.holds (h : Conforms C t) (hc : t.Constraints) (ha : t.Stores a)
    (he : e ∈ t.entities) (hart : e.artifactId = a.id)
    (hl : e.localKey = functionLocal (functionKey K)) : ∃ F m, C.Holds t a K F e m := by
  obtain ⟨b, hb, hbid, _, hp⟩ := h.sound.entities e he
  obtain ⟨a', K', F, m, hh⟩ := h.functions e he (hp.of_functionLocal hl).1
  obtain ⟨_, hart', hl', _, _⟩ := hh.cols
  obtain rfl : K' = K := functionKey_inj (functionLocal_inj (hl'.symm.trans hl))
  have hid : a'.id = a.id := hart'.symm.trans hart
  exact ⟨F, m, hh.congr ha hid (Tables.Stores.sha_eq hc hh.stores ha hid)⟩

/-- A function has one row. -/
theorem Conforms.row_unique (h : Conforms C t) (hc : t.Constraints) {m m' : Materialization}
    (hm : m ∈ t.materializations) (hm' : m' ∈ t.materializations)
    (hid : m.functionId = m'.functionId) : m = m' := by
  obtain ⟨e, he, _, hfn, hart⟩ := h.materializations m hm
  obtain ⟨e', he', _, hfn', hart'⟩ := h.materializations m' hm'
  obtain rfl := List.inj_on_of_nodup_map hc.entityKey he he' (hfn.symm.trans (hid.trans hfn'))
  exact List.inj_on_of_nodup_map hc.materializationKey hm hm' (Prod.ext (hart.trans hart'.symm) hid)

/-- The row `SELECT * FROM materializations WHERE function_id=?` finds. -/
theorem Conforms.materialization_eq (h : Conforms C t) (hc : t.Constraints)
    (hh : C.Holds t a K F e m) : t.materialization e.id = some m :=
  materialization_of_only hh.row hh.handle fun _ hm' hid =>
    h.row_unique hc hm' hh.row (hid.trans hh.handle.symm)

/-- A row lies under the handle of a key exactly where it lies under the key. -/
theorem Conforms.id_iff (h : Conforms C t) (hc : t.Constraints) (ha : t.Stores a)
    (he : e ∈ t.entities) {l : String} (hl : ':' ∈ l.toList) :
    e.id = entityId a l ↔ e.localPair = (a.id, l) := by
  obtain ⟨b, hb, hbid, hsha⟩ := ha
  rw [entityId_congr hsha.symm, ← hbid]
  constructor
  · intro hid
    obtain ⟨hart, hlocal, _⟩ := h.sound.entity_of_id hc hb hl he hid
    exact Prod.ext hart hlocal
  · intro hpair
    obtain ⟨hart, hlocal⟩ := Prod.mk.inj hpair
    rw [(h.sound.id_of_entity hc hb he hart).1, hlocal]

/-- A handle names one stored artifact and one key. -/
theorem Conforms.handle_inj (h : Conforms C t) (hc : t.Constraints) (ha : t.Stores a)
    (hb : t.Stores b) {l l' : String} (hl : ':' ∈ l.toList) (hl' : ':' ∈ l'.toList)
    (he : entityId a l = entityId b l') :
    a.id = b.id ∧ a.contentSha256 = b.contentSha256 ∧ l = l' := by
  obtain ⟨x, hx, hxid, hxsha⟩ := ha
  obtain ⟨y, hy, hyid, hysha⟩ := hb
  rw [entityId_congr hxsha.symm, entityId_congr hysha.symm] at he
  obtain ⟨rfl, hkey⟩ := h.sound.handle_inj hc hx hy hl hl' he
  exact ⟨hxid.symm.trans hyid, hxsha.symm.trans hysha, hkey⟩

end Names

/-! ## 6. Catalogs -/

section Catalog

variable {C : Contents} {t : Tables} {a : Artifact} {K : Nat} {F : Function}

/-- The state `markEntity` writes for a catalog entry. -/
def FunctionRecord.state (f : FunctionRecord) : EntityState :=
  if f.declaration then .declarationOnly else .catalogOnly

/-- **The entities after one catalog entry**: those of other handles, and the function's. -/
theorem Conforms.mem_entry (h : Conforms C t) (hc : t.Constraints) (hs : t.Stores a)
    (f : FunctionRecord) (x : Entity) :
    x ∈ (effects (f.statements a) t).entities ↔
      (x ∈ t.entities ∧ x.id ≠ f.handle a) ∨
        x = { (lookup Entity.localPair (a.id, functionLocal f.key) t.entities).elim (f.entityRow a)
          (Entity.recatalog (f.entityRow a)) with materialization := f.state } := by
  have hkeep : ∀ n r, Entity.localPair (Entity.recatalog n r) = Entity.localPair r :=
    fun _ _ => rfl
  have hlocal : Keyed Entity.localPair t.entities := hc.entityLocal
  have hids : ∀ r ∈ t.entities, r.id = f.handle a ↔ r.localPair = (a.id, functionLocal f.key) :=
    fun r hr => h.id_iff hc hs hr (colon_mem_functionLocal f.key)
  have hrow : ((lookup Entity.localPair (a.id, functionLocal f.key) t.entities).elim (f.entityRow a)
      (Entity.recatalog (f.entityRow a))).id = f.handle a := by
    cases hl : lookup Entity.localPair (a.id, functionLocal f.key) t.entities with
    | none => rfl
    | some old => exact (hids old (mem_of_lookup hl)).mpr (key_of_lookup hl)
  have hnew : Keyed Entity.localPair [f.entityRow a] := List.nodup_singleton _
  have hmem : ∀ r, r ∈ upsertAll Entity.localPair Entity.recatalog [f.entityRow a] t.entities ↔ _ :=
    fun r => mem_upsertAll hlocal hkeep hnew
  show x ∈ updateWhere (·.id = f.handle a) (fun e => { e with materialization := f.state })
    (upsertAll Entity.localPair Entity.recatalog [f.entityRow a] t.entities) ↔ _
  rw [mem_updateWhere]
  constructor
  · rintro ⟨r, hr, rfl⟩
    rcases (hmem r).mp hr with ⟨new, hnew, hkey, hrow'⟩ | ⟨hrt, hne⟩
    · obtain rfl := List.mem_singleton.mp hnew
      have hkey : (a.id, functionLocal f.key) = r.localPair := hkey
      rw [← hkey] at hrow'
      right
      rw [hrow', if_pos (decide_eq_true hrow)]
    · have hid : r.id ≠ f.handle a := fun hid =>
        hne _ List.mem_cons_self ((hids r hrt).mp hid).symm
      rw [if_neg (by simpa using hid)]
      exact .inl ⟨hrt, hid⟩
  · rintro (⟨hx, hid⟩ | rfl)
    · refine ⟨x, (hmem x).mpr (.inr ⟨hx, fun new hnew hkey => ?_⟩), ?_⟩
      · rw [List.mem_singleton.mp hnew] at hkey
        exact hid ((hids x hx).mpr hkey.symm)
      · rw [if_neg (by simpa using hid)]
    · have hpair : ((lookup Entity.localPair (a.id, functionLocal f.key) t.entities).elim
          (f.entityRow a) (Entity.recatalog (f.entityRow a))).localPair =
          (a.id, functionLocal f.key) := by
        cases hl : lookup Entity.localPair (a.id, functionLocal f.key) t.entities with
        | none => rfl
        | some old => exact (hkeep _ old).trans (key_of_lookup hl)
      refine ⟨_, (hmem ((lookup Entity.localPair (a.id, functionLocal f.key) t.entities).elim
        (f.entityRow a) (Entity.recatalog (f.entityRow a)))).mpr
        (.inl ⟨f.entityRow a, List.mem_cons_self, hpair.symm, ?_⟩), ?_⟩
      · rw [hpair]
      · rw [if_pos (decide_eq_true hrow)]

/-- **The rows after one catalog entry.** -/
theorem Conforms.mem_entryRow (h : Conforms C t) (hc : t.Constraints) (hs : t.Stores a)
    (f : FunctionRecord) (m : Materialization) :
    m ∈ (effects (f.statements a) t).materializations ↔
      (m ∈ t.materializations ∧ m.functionId ≠ f.handle a) ∨
        m = (lookup Materialization.pair (a.id, f.handle a) t.materializations).elim
          (f.materializationRow a) (Materialization.recatalog (f.materializationRow a)) := by
  have hkeep : ∀ n r, Materialization.pair (Materialization.recatalog n r) =
      Materialization.pair r := fun _ _ => rfl
  have hkeyed : Keyed Materialization.pair t.materializations := hc.materializationKey
  have hpairs : ∀ m ∈ t.materializations, m.functionId = f.handle a →
      m.pair = (a.id, f.handle a) := by
    intro m hm hid
    obtain ⟨e, he, _, hfn, hart⟩ := h.materializations m hm
    have hpair := (h.id_iff hc hs he (colon_mem_functionLocal f.key)).mp (hfn.symm.trans hid)
    exact Prod.ext (hart.trans (Prod.mk.inj hpair).1) hid
  have hnew : Keyed Materialization.pair [f.materializationRow a] := List.nodup_singleton _
  have hmem : ∀ r, r ∈ upsertAll Materialization.pair Materialization.recatalog
      [f.materializationRow a] t.materializations ↔ _ :=
    fun r => mem_upsertAll hkeyed hkeep hnew
  show m ∈ upsertAll Materialization.pair Materialization.recatalog [f.materializationRow a]
    t.materializations ↔ _
  rw [hmem m]
  constructor
  · rintro (⟨new, hnew, hkey, hrow⟩ | ⟨hm, hne⟩)
    · obtain rfl := List.mem_singleton.mp hnew
      have hkey : (a.id, f.handle a) = m.pair := hkey
      rw [← hkey] at hrow
      exact .inr hrow
    · refine .inl ⟨hm, fun hid => ?_⟩
      exact hne _ List.mem_cons_self (hpairs m hm hid).symm
  · rintro (⟨hm, hid⟩ | hrow)
    · refine .inr ⟨hm, fun new hnew hkey => ?_⟩
      rw [List.mem_singleton.mp hnew] at hkey
      exact hid (Prod.mk.inj hkey).2.symm
    · have hpair : m.pair = (a.id, f.handle a) := by
        rw [hrow]
        cases hl : lookup Materialization.pair (a.id, f.handle a) t.materializations with
        | none => rfl
        | some old => exact (hkeep _ old).trans (key_of_lookup hl)
      refine .inl ⟨f.materializationRow a, List.mem_cons_self, hpair.symm, ?_⟩
      rw [hpair]
      exact hrow

/-- A catalog entry leaves the rows of snapshots alone. -/
theorem Conforms.entry_same (h : Conforms C t) (hc : t.Constraints) (hs : t.Stores a)
    (f : FunctionRecord) (g : String) : SameRows g t (effects (f.statements a) t) := by
  refine .of_owned (fun x ho => ?_) rfl rfl rfl
  rw [h.mem_entry hc hs]
  constructor
  · rintro (⟨hx, _⟩ | rfl)
    · exact hx
    · exfalso
      cases hl : lookup Entity.localPair (a.id, functionLocal f.key) t.entities with
      | none =>
        rw [hl] at ho
        cases ho
      | some old =>
        rw [hl] at ho
        obtain ⟨b, _, _, _, hp⟩ := h.sound.entities old (mem_of_lookup hl)
        have hpair : old.localPair = (a.id, functionLocal f.key) := key_of_lookup hl
        have hfree := (hp.of_functionLocal (Prod.mk.inj hpair).2).2
        have ho : old.functionId.isSome := ho
        rw [hfree] at ho
        cases ho
  · intro hx
    refine .inl ⟨hx, fun hid => ?_⟩
    obtain ⟨b, _, _, _, hp⟩ := h.sound.entities x hx
    have hpair := (h.id_iff hc hs hx (colon_mem_functionLocal f.key)).mp hid
    rw [(hp.of_functionLocal (Prod.mk.inj hpair).2).2] at ho
    cases ho

theorem Conforms.entry_globals (h : Conforms C t) (hc : t.Constraints) (hs : t.Stores a)
    (f : FunctionRecord) : ∀ x ∈ t.entities, x.kind = "global" →
      x ∈ (effects (f.statements a) t).entities := by
  intro x hx hk
  refine (h.mem_entry hc hs f x).mpr (.inl ⟨hx, fun hid => ?_⟩)
  obtain ⟨b, _, _, _, hp⟩ := h.sound.entities x hx
  have hpair := (h.id_iff hc hs hx (colon_mem_functionLocal f.key)).mp hid
  rw [(hp.of_functionLocal (Prod.mk.inj hpair).2).1] at hk
  exact absurd hk (by decide)

/-- **The function of a catalog entry stands as the entry says**, with the snapshot it had. -/
theorem Conforms.entry_holds (h : Conforms C t) (hc : t.Constraints) (hs : t.Stores a)
    (hF : (C.module a.id).functions[K]? = some F) :
    ∃ text m, C.Holds (effects ((catalogEntry F K).statements a) t) a K F
      ((catalogEntry F K).faceRow a (catalogEntry F K).attributes text (catalogEntry F K).state) m ∧
      (m = (catalogEntry F K).materializationRow a ∨
        ∃ old, m = Materialization.recatalog ((catalogEntry F K).materializationRow a) old) := by
  have hst : (effects ((catalogEntry F K).statements a) t).Stores a := hs.effects _
  have hmem := h.mem_entry hc hs (catalogEntry F K)
  have hrow := h.mem_entryRow hc hs (catalogEntry F K)
  have hsame := h.entry_same hc hs (catalogEntry F K) ((catalogEntry F K).handle a)
  have hstate : F.isDeclaration = true → (catalogEntry F K).state = .declarationOnly :=
    fun hd => if_pos hd
  cases hl : lookup Entity.localPair (a.id, functionLocal (catalogEntry F K).key) t.entities with
  | none =>
    have hnone : ∀ e ∈ t.entities, e.id ≠ (catalogEntry F K).handle a := fun e he hid =>
      lookup_eq_none_iff.mp hl e he ((h.id_iff hc hs he (colon_mem_functionLocal _)).mp hid)
    have hlm : lookup Materialization.pair (a.id, (catalogEntry F K).handle a) t.materializations =
        none := by
      refine lookup_eq_none_iff.mpr fun m hm hpair => ?_
      obtain ⟨e, he, _, hfn, _⟩ := h.materializations m hm
      exact hnone e he (hfn.symm.trans (Prod.mk.inj hpair).2)
    rw [hl] at hmem
    rw [hlm] at hrow
    refine ⟨none, (catalogEntry F K).materializationRow a, ⟨hst, hF, (hmem _).mpr (.inr rfl),
      (hrow _).mpr (.inr rfl), rfl, rfl, ⟨_, _, _, rfl⟩, fun hd => ⟨?_, rfl⟩, fun hd => ⟨?_, ?_⟩,
      fun _ => ?_, fun run hrun => ?_⟩, .inl rfl⟩
    · rw [hstate hd]
    · simp [FunctionRecord.faceRow, FunctionRecord.state, catalogEntry, hd]
    · simp [FunctionRecord.materializationRow, catalogEntry, hd]
    · exact (h.owners _ fun e he hid => absurd hid (hnone e he)).of_same hsame
    · cases hrun
  | some old =>
    have hpair : old.localPair = (a.id, functionLocal (catalogEntry F K).key) := key_of_lookup hl
    obtain ⟨hart, hlocal⟩ := Prod.mk.inj hpair
    obtain ⟨F', m₀, hh⟩ := h.holds hc hs (mem_of_lookup hl) hart hlocal
    obtain rfl : F' = F := Option.some.inj (hh.function.symm.trans hF)
    have hlm : lookup Materialization.pair (a.id, (catalogEntry F' K).handle a)
        t.materializations = some m₀ := by
      have hpair : m₀.pair = (a.id, (catalogEntry F' K).handle a) :=
        Prod.ext hh.artifact (hh.handle.trans hh.cols.1)
      rw [← hpair]
      exact lookup_self hc.materializationKey hh.row
    obtain ⟨attributes, text, state, hface⟩ := hh.face
    rw [hl] at hmem
    rw [hlm] at hrow
    have hid : old.id = (catalogEntry F' K).handle a := hh.cols.1
    refine ⟨text, Materialization.recatalog ((catalogEntry F' K).materializationRow a) m₀,
      ⟨hst, hF, (hmem _).mpr (.inr ?_), (hrow _).mpr (.inr rfl), hh.artifact,
        hh.handle.trans hid, ⟨_, _, _, rfl⟩, fun hd => ⟨?_, ?_⟩, fun hd => ⟨?_, ?_⟩,
        fun hn => ?_, fun run hrun => ?_⟩, .inr ⟨m₀, rfl⟩⟩
    · rw [hface]
      rfl
    · have htext : text = none := by
        have := (hh.declared hd).1
        rw [hface] at this
        exact congrArg Entity.exactText this
      rw [hstate hd, htext]
    · rw [(hh.declared hd).2]
      rfl
    · simp [FunctionRecord.faceRow, FunctionRecord.state, catalogEntry, hd]
    · simp [Materialization.recatalog, FunctionRecord.materializationRow, catalogEntry, hd]
    · have hbare := hh.absent hn
      rw [hid] at hbare
      exact hbare.of_same hsame
    · obtain ⟨p, hp, hprun, hsnap⟩ := hh.present run hrun
      have hhandle : p.target.handle = (catalogEntry F' K).handle a := hp.handle
      exact ⟨p, hp, hprun, hsnap.of_same (hhandle ▸ hsame) (h.entry_globals hc hs _)⟩

/-- Other functions stand as before a catalog entry. -/
theorem Conforms.entry_other (h : Conforms C t) (hc : t.Constraints) (hs : t.Stores a)
    (f : FunctionRecord) {b : Artifact} {J : Nat} {G : Function} {e : Entity} {m : Materialization}
    (hh : C.Holds t b J G e m) (hne : e.id ≠ f.handle a) :
    C.Holds (effects (f.statements a) t) b J G e m :=
  hh.of_same (hh.stores.effects _) ((h.mem_entry hc hs f e).mpr (.inl ⟨hh.entity, hne⟩))
    ((h.mem_entryRow hc hs f m).mpr (.inl ⟨hh.row, by rw [hh.handle]; exact hne⟩))
    (h.entry_same hc hs f e.id) (h.entry_globals hc hs f)

/-- **A catalog entry keeps the invariant.** -/
theorem Conforms.entry (h : Conforms C t) (hc : t.Constraints) (hs : t.Stores a)
    (hF : (C.module a.id).functions[K]? = some F) :
    Conforms C (effects ((catalogEntry F K).statements a) t) := by
  obtain ⟨text, m, hh, _⟩ := h.entry_holds hc hs hF
  have hst : ∀ b, t.Stores b → (effects ((catalogEntry F K).statements a) t).Stores b :=
    fun b hb => hb.effects _
  have hmem := h.mem_entry hc hs (catalogEntry F K)
  have hcols := hh.cols
  -- a row under the entry's handle is the function's
  have honly : ∀ x ∈ (effects ((catalogEntry F K).statements a) t).entities,
      ¬ (x ∈ t.entities ∧ x.id ≠ (catalogEntry F K).handle a) →
      x = (catalogEntry F K).faceRow a (catalogEntry F K).attributes text
        (catalogEntry F K).state := by
    intro x hx hnot
    have h1 := ((hmem x).mp hx).resolve_left hnot
    have h2 := ((hmem _).mp hh.entity).resolve_left fun hin => hin.2 rfl
    exact h1.trans h2.symm
  refine ⟨h.sound.functionStatements hs _, fun e he hk => ?_, fun m' hm' => ?_, fun g hg => ?_,
    fun x hx hk => ?_⟩
  · by_cases hold : e ∈ t.entities ∧ e.id ≠ (catalogEntry F K).handle a
    · obtain ⟨b, J, G, m', hh'⟩ := h.functions e hold.1 hk
      exact ⟨b, J, G, m', h.entry_other hc hs _ hh' hold.2⟩
    · rw [honly e he hold]
      exact ⟨a, K, F, m, hh⟩
  · rcases (h.mem_entryRow hc hs _ m').mp hm' with ⟨hm', hid⟩ | hrow
    · obtain ⟨e, he, hk, hfn, hart⟩ := h.materializations m' hm'
      exact ⟨e, (hmem e).mpr (.inl ⟨he, hfn ▸ hid⟩), hk, hfn, hart⟩
    · have hmrow := ((h.mem_entryRow hc hs _ m).mp hh.row).resolve_left fun hin =>
        hin.2 (hh.handle.trans hcols.1)
      rw [hrow.trans hmrow.symm]
      exact ⟨_, hh.entity, rfl, hh.handle, hh.artifact⟩
  · refine (h.owners g fun e he hid hk => ?_).of_same (h.entry_same hc hs _ g)
    by_cases hhandle : e.id = (catalogEntry F K).handle a
    · exact hg _ hh.entity (hhandle.symm.trans hid) rfl
    · exact hg e ((hmem e).mpr (.inl ⟨he, hhandle⟩)) hid hk
  · by_cases hold : x ∈ t.entities ∧ x.id ≠ (catalogEntry F K).handle a
    · obtain ⟨b, J, G, r, hb, hrest⟩ := h.globals x hold.1 hk
      exact ⟨b, J, G, r, hst b hb, hrest⟩
    · rw [honly x hx hold] at hk
      exact absurd hk (show "function" ≠ "global" by decide)

end Catalog

theorem execAll_append {io : Faults} {ss ss' : List Statement} {db db' : Database}
    (h : execAll io (ss ++ ss') db = .ok db') :
    ∃ db₁, execAll io ss db = .ok db₁ ∧ execAll io ss' db₁ = .ok db' := by
  induction ss generalizing db with
  | nil => exact ⟨db, rfl, h⟩
  | cons s ss ih =>
    rw [List.cons_append, execAll] at h
    rw [execAll]
    split at h
    · cases h
    · exact ih h

/-- **How the functions stand after a catalog**: each as its entry says. -/
structure Contents.Recatalogued (C : Contents) (t : Tables) (a : Artifact) (K : Nat) (F : Function) :
    Prop where
  stands : ∃ text m, C.Holds t a K F
    ((catalogEntry F K).faceRow a (catalogEntry F K).attributes text (catalogEntry F K).state) m ∧
      (m = (catalogEntry F K).materializationRow a ∨
        ∃ old, m = Materialization.recatalog ((catalogEntry F K).materializationRow a) old)

/-- The entries of a catalog, one after the other. -/
theorem Conforms.entries {C : Contents} {io : Faults} {a : Artifact} {fs : List (Function × Nat)}
    {db db' : Database} (h : Conforms C db.toTables) (hs : db.Stores a)
    (hF : ∀ FK ∈ fs, (C.module a.id).functions[FK.2]? = some FK.1) (hn : (fs.map (·.2)).Nodup)
    (he : execAll io ((fs.map fun FK => catalogEntry FK.1 FK.2).flatMap (·.statements a)) db =
      .ok db') :
    Conforms C db'.toTables ∧ db'.Stores a ∧
      (∀ FK ∈ fs, C.Recatalogued db'.toTables a FK.2 FK.1) ∧
      ∀ K F, K ∉ fs.map (·.2) → C.Recatalogued db.toTables a K F →
        C.Recatalogued db'.toTables a K F := by
  induction fs generalizing db with
  | nil =>
    cases he
    exact ⟨h, hs, fun FK hm => absurd hm List.not_mem_nil, fun K F _ hr => hr⟩
  | cons FK fs ih =>
    obtain ⟨F, K⟩ := FK
    rw [List.map_cons, List.flatMap_cons] at he
    obtain ⟨db₁, h₁, he⟩ := execAll_append he
    obtain ⟨hnot, hn⟩ := List.nodup_cons.mp hn
    have ht := execAll_ok h₁
    have hFK := hF (F, K) List.mem_cons_self
    have hstep : Conforms C db₁.toTables := by
      rw [ht]
      exact h.entry db.constraints hs hFK
    have hs₁ : db₁.Stores a := by
      rw [ht]
      exact hs.effects _
    obtain ⟨hconf, hst, hnew, hkeep⟩ := ih hstep hs₁ (fun x hx => hF x (List.mem_cons_of_mem _ hx))
      hn he
    refine ⟨hconf, hst, fun x hx => ?_, fun J G hJ hr => ?_⟩
    · rcases List.mem_cons.mp hx with rfl | hx
      · refine hkeep K F hnot ⟨?_⟩
        rw [ht]
        exact h.entry_holds db.constraints hs hFK
      · exact hnew x hx
    · rw [List.map_cons, List.mem_cons, not_or] at hJ
      refine hkeep J G hJ.2 ?_
      obtain ⟨text, m, hh, hm⟩ := hr.stands
      refine ⟨text, m, ?_, hm⟩
      rw [ht]
      refine h.entry_other db.constraints hs _ hh fun hid => hJ.1 ?_
      exact functionKey_inj (functionLocal_inj (entityId_right_inj (colon_mem_functionLocal _)
        (colon_mem_functionLocal _) hid))

/-! ## 7. Statements on artifacts and runs -/

/-- The statements that touch artifacts and runs only. -/
def Statement.Aside : Statement → Prop
  | .insertArtifact row => row.WellNamed
  | .insertRun _ => True
  | .endRun .. => True
  | .requestFull _ => True
  | .claimCatalog .. => True
  | .setCatalogRun .. => True
  | .publishArtifact .. => True
  | .failArtifact .. => True
  | .completeFull _ => True
  | _ => False

/-- What such statements leave. -/
structure SameContents (t t' : Tables) : Prop where
  entities : t'.entities = t.entities
  relations : t'.relations = t.relations
  sources : t'.sourceLocations = t.sourceLocations
  capabilities : t'.capabilities = t.capabilities
  materializations : t'.materializations = t.materializations
  stores : ∀ a, t.Stores a → t'.Stores a

section Aside

variable {C : Contents} {t t' : Tables} {s : Statement}

theorem Statement.Aside.same (hs : s.Aside) (t : Tables) : SameContents t (s.effect t) := by
  have hstores : ∀ a, t.Stores a → (s.effect t).Stores a := fun a ha => ha.effect s
  cases s with
  | insertArtifact | insertRun | endRun | requestFull | claimCatalog | setCatalogRun
  | publishArtifact | failArtifact | completeFull => exact ⟨rfl, rfl, rfl, rfl, rfl, hstores⟩
  | _ => exact absurd hs (by simp [Statement.Aside])

theorem Sound.aside {T : Territory} (h : Sound T t) (hs : s.Aside) : Sound T (s.effect t) := by
  by_cases hins : ∃ row, s = .insertArtifact row
  · obtain ⟨row, rfl⟩ := hins
    exact h.insertArtifact hs
  · have hsame := Statement.sameArtifacts (fun row hrow => hins ⟨row, hrow⟩) t
    have hrows := hs.same t
    exact h.of_eq (hsame.wellNamed h.artifacts) hsame.kept hrows.entities hrows.relations
      hrows.sources

theorem SameContents.sameRows (h : SameContents t t') (f : String) : SameRows f t t' :=
  .of_owned (fun x _ => by rw [h.entities]) h.relations h.sources h.capabilities

theorem Contents.Holds.sameContents {a : Artifact} {K : Nat} {F : Function} {e : Entity}
    {m : Materialization} (h : C.Holds t a K F e m) (hs : SameContents t t') :
    C.Holds t' a K F e m :=
  h.of_same (hs.stores a h.stores) (hs.entities ▸ h.entity) (hs.materializations ▸ h.row)
    (hs.sameRows e.id) fun _ hx _ => hs.entities ▸ hx

theorem Contents.Recatalogued.sameContents {a : Artifact} {K : Nat} {F : Function}
    (h : C.Recatalogued t a K F) (hs : SameContents t t') : C.Recatalogued t' a K F := by
  obtain ⟨text, m, hh, hm⟩ := h.stands
  exact ⟨text, m, hh.sameContents hs, hm⟩

theorem Conforms.sameContents (h : Conforms C t) (hsound : Sound .scoped t')
    (hs : SameContents t t') : Conforms C t' :=
  h.of_rows hsound hs.stores hs.entities hs.relations hs.sources hs.capabilities id
    (by rw [hs.materializations, List.map_id]) fun _ _ => .inl rfl

theorem Conforms.aside (h : Conforms C t) (hs : s.Aside) : Conforms C (s.effect t) :=
  h.sameContents (h.sound.aside hs) (hs.same t)

theorem Conforms.asides (h : Conforms C t) {ss : List Statement} (hs : ∀ s ∈ ss, s.Aside) :
    Conforms C (effects ss t) :=
  effects_invariant h fun s hmem _ h => h.aside (hs s hmem)

end Aside

/-! ## 8. The catalog phase -/

section CatalogPhase

variable {C : Contents} {a : Artifact} {db db' : Database}

/-- **A published catalog** leaves every function of the artifact as its entry says. -/
theorem Conforms.publishCatalog (h : Conforms C db.toTables) (hs : db.Stores a) {io : Faults}
    {run : String} {module : ModuleRecord} {endedAt : Time}
    (he : Irez.publishCatalog io a run module (catalog (C.module a.id)) endedAt db = .ok db') :
    Conforms C db'.toTables ∧ ∀ K F, (C.module a.id).functions[K]? = some F →
      C.Recatalogued db'.toTables a K F := by
  obtain ⟨db₃, he, hcommit⟩ : ∃ db₃, execAll io (publishCatalogStatements a run module
      (catalog (C.module a.id)) endedAt) db = .ok db₃ ∧ commit io db₃ = .ok db' := by
    unfold Irez.publishCatalog transaction at he
    split at he
    · cases he
    · exact ⟨_, ‹_›, he⟩
  obtain rfl := commit_ok hcommit
  unfold publishCatalogStatements at he
  obtain ⟨db₂, he, hend⟩ := execAll_append he
  obtain ⟨db₁, hfirst, hentries⟩ := execAll_append he
  have h₁ := execAll_ok hfirst
  rw [effects_cons, effects_nil] at h₁
  have hpub : (Statement.publishArtifact module ((capabilitiesRecord (catalog (C.module a.id))).getD
    []) a.id).Aside := trivial
  have hconf₁ : Conforms C db₁.toTables := by
    rw [h₁]
    exact h.aside hpub
  have hs₁ : db₁.Stores a := by
    rw [h₁]
    exact hs.effect _
  rw [functionRecords_catalog] at hentries
  have hfs : ∀ FK ∈ (C.module a.id).functions.zipIdx,
      (C.module a.id).functions[FK.2]? = some FK.1 := fun FK hm =>
    List.mem_zipIdx_iff_getElem?.mp hm
  have hnodup : ((C.module a.id).functions.zipIdx.map (·.2)).Nodup := by
    rw [List.zipIdx_map_snd]
    exact List.nodup_range'
  obtain ⟨hconf, _, hstands, _⟩ := hconf₁.entries hs₁ hfs hnodup hentries
  have h₃ := execAll_ok hend
  rw [effects_cons, effects_nil] at h₃
  have hlast : (Statement.endRun run .success endedAt none).Aside := trivial
  rw [h₃]
  refine ⟨hconf.aside hlast, fun K F hF => ?_⟩
  exact (hstands (F, K) (List.mem_zipIdx_iff_getElem?.mpr hF)).sameContents (hlast.same _)

/-- The catalog that a successful phase published was accepted. -/
theorem refreshCatalog_published {env : Environment} {graph : String → Outcome} {d : CatalogDraw}
    {index : IndexLevel} (h : refreshCatalog env graph d a index db = (db', .ok ())) :
    ∃ db₁ module records, claimCatalog env.claim d.claim a index db = .ok db₁ ∧
      accept (graph a.storedPath) = .ok records ∧
      Irez.publishCatalog env.publish a d.claim.runId module records d.endedAt db₁ = .ok db' := by
  have hfail : ∀ (e : Thrown) (db₁ : Database),
      failCatalogWith env.failure a.id d e db₁ ≠ (db', .ok ()) := by
    intro e db₁ he
    unfold failCatalogWith at he
    split at he
    · cases he
    · cases he
  unfold refreshCatalog at h
  split at h
  · cases h
  · rename_i db₁ hclaim
    unfold finishCatalog at h
    split at h
    · exact absurd h (hfail _ _)
    · rename_i module records hacc
      split at h
      · cases h
      · split at h
        · exact absurd h (hfail _ _)
        · rename_i db₂ hpub
          cases h
          unfold acceptCatalog at hacc
          split at hacc
          · cases hacc
          · rename_i rs haccept
            split at hacc
            · cases hacc
            · cases hacc
              exact ⟨db₁, module, records, hclaim, haccept, hpub⟩

theorem Conforms.claimCatalog (h : Conforms C db.toTables) {io : Faults} {d : ClaimDraw}
    {index : IndexLevel} (hc : Irez.claimCatalog io d a index db = .ok db') :
    Conforms C db'.toTables := by
  obtain ⟨run, _, ht⟩ := claimCatalog_effects hc
  rw [ht]
  refine h.asides fun s hs => ?_
  simp only [List.mem_cons, List.not_mem_nil, or_false] at hs
  rcases hs with rfl | rfl | rfl
  · trivial
  · trivial
  · trivial

theorem Conforms.failCatalog (h : Conforms C db.toTables) {io : Faults}
    {artifactId run message : String} {endedAt : Time}
    (hf : Irez.failCatalog io artifactId run message endedAt db = .ok db') :
    Conforms C db'.toTables := by
  rw [transaction_ok hf]
  refine h.asides fun s hs => ?_
  simp only [failCatalogStatements, List.mem_cons, List.not_mem_nil, or_false] at hs
  rcases hs with rfl | rfl
  · trivial
  · trivial

theorem claimCatalog_stores {io : Faults} {d : ClaimDraw} {index : IndexLevel} {b : Artifact}
    (hc : Irez.claimCatalog io d a index db = .ok db') (h : db.Stores b) : db'.Stores b := by
  obtain ⟨run, _, ht⟩ := claimCatalog_effects hc
  rw [ht]
  exact h.effects _

/-- **A successful catalog phase.** -/
theorem Conforms.recatalogued (h : Conforms C db.toTables) {env : Environment}
    {graph : String → Outcome} {d : CatalogDraw} {index : IndexLevel} (hs : db.Stores a)
    (hg : C.Catalogs a (graph a.storedPath))
    (hr : refreshCatalog env graph d a index db = (db', .ok ())) :
    Conforms C db'.toTables ∧ ∀ K F, (C.module a.id).functions[K]? = some F →
      C.Recatalogued db'.toTables a K F := by
  obtain ⟨db₁, module, records, hclaim, hacc, hpub⟩ := refreshCatalog_published hr
  obtain rfl := hg records hacc
  exact (h.claimCatalog hclaim).publishCatalog (claimCatalog_stores hclaim hs) hpub

/-- **A catalog phase keeps the invariant**, however it ends. -/
theorem Conforms.refreshCatalog (h : Conforms C db.toTables) {env : Environment}
    {graph : String → Outcome} {d : CatalogDraw} {index : IndexLevel}
    {result : Except Thrown Unit} (hs : db.Stores a) (hg : C.Catalogs a (graph a.storedPath))
    (hr : Irez.refreshCatalog env graph d a index db = (db', result)) : Conforms C db'.toTables := by
  cases refreshCatalog_run hr with
  | refused => exact h
  | abandoned hclaim => exact h.claimCatalog hclaim
  | failed hclaim hfail => exact (h.claimCatalog hclaim).failCatalog hfail
  | published => exact (h.recatalogued hs hg hr).1

end CatalogPhase

end Irez
