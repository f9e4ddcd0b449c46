/-
  File:      Irez/History.lean
  Subject:   The tables after any history of calls of one process on files whose contents
             do not change.

  * `Contents.Publication`, `Conforms.analysed` -- a publish brings one function to what its
    stream says, and leaves the others as they stand;
  * `Conforms.attempt`, `History.conforms` -- every call keeps the invariant of
    Conforms.lean;
  * `Contents.Answered.indexArtifact`, `Contents.Answered.query` -- `ingest`, `reindex` and
    every query are histories.
-/
import Irez.Conforms
import Irez.Trace

open Irez.Basis

namespace Irez

/-! ## 1. Shared rows of a publish -/

namespace Publish

section Shared

variable {T : Territory} {t : Tables} {p : Publish} {e : EntityRecord}

/-- The row of a function or a global that the stream declares: the old row rewritten, or a
    new one. -/
def sharedRow (p : Publish) (t : Tables) (e : EntityRecord) : Entity :=
  (lookup Entity.localPair (p.target.artifact.id, e.localKey) t.entities).elim
    (entityRow p.target.artifact e) (Entity.restructure (entityRow p.target.artifact e))

theorem sharedRow_localPair (p : Publish) (t : Tables) (e : EntityRecord) :
    (p.sharedRow t e).localPair = (p.target.artifact.id, e.localKey) := by
  unfold sharedRow
  cases hl : lookup Entity.localPair (p.target.artifact.id, e.localKey) t.entities with
  | none => rfl
  | some y =>
    have hpair : y.localPair = (p.target.artifact.id, e.localKey) := key_of_lookup hl
    exact hpair

theorem sharedRow_ready (p : Publish) (t : Tables) (e : EntityRecord) :
    ready (p.sharedRow t e) = p.sharedRow t e := by
  unfold sharedRow
  cases lookup Entity.localPair (p.target.artifact.id, e.localKey) t.entities with
  | none => rfl
  | some y => rfl

/-- A row under the key of a function or a global has no owner. -/
theorem Fits.shared_free (h : p.Fits T t) (he : e ∈ p.entities) (hi : e.interior = false)
    {y : Entity} (hy : y ∈ t.entities) (hpair : y.localPair = (p.target.artifact.id, e.localKey)) :
    y.functionId = none := by
  obtain ⟨hart, hl⟩ := Prod.mk.inj hpair
  obtain ⟨b, _, _, _, hp⟩ := h.sound.entities y hy
  rcases h.own.entities e he with ⟨_, key, hkey⟩ | ⟨_, hkey⟩ | ⟨_, _, hown⟩
  · exact (hp.of_functionLocal (hl.trans hkey)).2
  · exact (hp.of_global (hl ▸ hkey)).2
  · rw [(h.own.interior_iff he).mpr hown] at hi
    cases hi

/-- **Every function or global the stream declares has its row after the publish.** -/
theorem Fits.mem_shared (h : p.Fits T t) (hr : p.Resolved t) (he : e ∈ p.entities)
    (hi : e.interior = false) : p.sharedRow t e ∈ (p.published t).entities := by
  have hlocal : Keyed Entity.localPair t.entities := h.constraints.entityLocal
  have hkept : lookup Entity.localPair (p.target.artifact.id, e.localKey) (p.keptEntities t) =
      lookup Entity.localPair (p.target.artifact.id, e.localKey) t.entities := by
    unfold keptEntities
    rw [lookup_deleteWhere hlocal]
    cases hl : lookup Entity.localPair (p.target.artifact.id, e.localKey) t.entities with
    | none => rfl
    | some y =>
      have hfree := h.shared_free he hi (mem_of_lookup hl) (key_of_lookup hl)
      simp [hfree]
  have hpair := p.sharedRow_localPair t e
  have hm : p.sharedRow t e ∈ (p.replaced t).entities := by
    refine h.mem_replaced.mpr (Or.inl ⟨e, he, hpair.symm, ?_⟩)
    rw [hpair, hkept]
    rfl
  have hclaim : p.claimRow (p.sharedRow t e) = p.sharedRow t e := by
    refine h.claimRow_other (h.upserted hm) fun e' he' hi' hrow => ?_
    rw [hrow] at hpair
    have hkey : e'.localKey = e.localKey := (Prod.mk.inj hpair).2
    obtain rfl := List.inj_on_of_nodup_map h.distinct he' he hkey
    rw [hi] at hi'
    cases hi'
  rw [h.published_eq hr]
  refine mem_updateWhere.mpr ⟨_, List.mem_map_of_mem hm, ?_⟩
  rw [hclaim]
  split
  · exact (p.sharedRow_ready t e).symm
  · rfl

/-- The row after the publish under such a key. -/
theorem Fits.shared_eq (h : p.Fits T t) (hr : p.Resolved t) (hc : (p.published t).Constraints)
    (he : e ∈ p.entities) (hi : e.interior = false) {x : Entity}
    (hx : x ∈ (p.published t).entities) (hart : x.artifactId = p.target.artifact.id)
    (hl : x.localKey = e.localKey) : x = p.sharedRow t e := by
  have hpair : x.localPair = (p.target.artifact.id, e.localKey) := Prod.ext hart hl
  exact List.inj_on_of_nodup_map hc.entityLocal hx (h.mem_shared hr he hi)
    (hpair.trans (p.sharedRow_localPair t e).symm)

end Shared

end Publish

/-! ## 2. Streams of a module -/

/-- The record of a global of the module. -/
def Module.globalRecord (M : Module) (i : Nat) : EntityRecord :=
  { kind := "global", localKey := "global:g" ++ toString i, ordinal := none,
    name := some (M.globals.getD i default).name, opcode := none,
    llvmType := some (M.globals.getD i default).type,
    exactText := some (M.globals.getD i default).text, attributes := [] }

/-- The globals a stream declares are those of its module. -/
theorem functionGraph_global {pd : Function → PostDominatorTree} {M : Module} {key : String}
    {e : EntityRecord} (he : e ∈ entityRecords (functionGraph pd M key)) (hk : e.kind = "global") :
    ∃ i, e = M.globalRecord i := by
  have hm := mem_entityRecords.mp he
  cases hsel : selectFunction key 0 M.functions with
  | none =>
    unfold functionGraph at hm
    rw [hsel] at hm
    simp [moduleHeader] at hm
  | some selected =>
    rw [functionGraph_eq hsel] at hm
    cases Selected.emitted_of_mem_graph hm (fun _ => Record.noConfusion) with
    | entity hb =>
      rcases Selected.bodyEntities_scoped _ e hb with ⟨hf, _⟩ | ⟨_, hl⟩ | ⟨_, hg, _⟩
      · rw [hk] at hf
        exact absurd hf (by decide)
      · -- the body declares no global
        have hhead := Selected.headField_bodyKey (List.mem_map_of_mem hb)
        rw [hl.head_eq] at hhead
        exact absurd hhead (by decide)
      · exact absurd hk hg
    | operand V c =>
      cases V with
      | global i => exact ⟨i, rfl⟩
      | function i | argument i | block i | instruction i | other i =>
        exact absurd hk (show "constant" ≠ "global" by decide)

/-- The function record of a stream. -/
theorem functionGraph_function {pd : Function → PostDominatorTree} {M : Module} {key : String}
    {K : Nat} {F : Function} (hsel : selectFunction key 0 M.functions = some (K, F)) :
    Selected.functionEntity ⟨M, K, F⟩ ∈ entityRecords (functionGraph pd M key) ∧
      ∀ e ∈ entityRecords (functionGraph pd M key), e.kind = "function" →
        e = Selected.functionEntity ⟨M, K, F⟩ := by
  have hbody : Selected.functionEntity ⟨M, K, F⟩ ∈ Selected.bodyEntities ⟨M, K, F⟩ :=
    List.mem_cons_self
  rw [functionGraph_eq hsel]
  refine ⟨mem_entityRecords.mpr ?_, fun e he hk => ?_⟩
  · rw [Selected.graph_records]
    exact List.mem_append_left _ (Selected.mem_structureEmitter hbody)
  · cases Selected.emitted_of_mem_graph (mem_entityRecords.mp he) (fun _ => Record.noConfusion) with
    | entity hb =>
      rcases Selected.bodyEntities_scoped _ e hb with ⟨_, hl⟩ | ⟨hg, _⟩ | ⟨hf, _, _⟩
      · exact List.inj_on_of_nodup_map (Selected.bodyKeys_nodup _) hb hbody hl
      · rw [hk] at hg
        exact absurd hg (by decide)
      · exact absurd hk hf
    | operand V c =>
      cases V with
      | global i => exact absurd hk (show "global" ≠ "function" by decide)
      | function i | argument i | block i | instruction i | other i =>
        exact absurd hk (show "constant" ≠ "function" by decide)

theorem Contents.GlobalRow.record {C : Contents} {t : Tables} {x : Entity} (h : C.GlobalRow t x) :
    ∃ a i, t.Stores a ∧ x = entityRow a ((C.module a.id).globalRecord i) := by
  obtain ⟨a, K, F, e, hs, _, _, he, hk, rfl⟩ := h
  obtain ⟨i, rfl⟩ := functionGraph_global he hk
  exact ⟨a, i, hs, rfl⟩

/-! ## 3. The publish of a function -/

section PublishPhase

variable {C : Contents} {t : Tables} {p : Publish} {K : Nat} {F : Function} {e : Entity}
  {m : Materialization}

/-- A publish of the stream of the function `K`, which its key selects and which has a body,
    on conforming tables. -/
structure Contents.Publication (C : Contents) (t : Tables) (p : Publish) (K : Nat) (F : Function) :
    Prop where
  conforms : Conforms C t
  fits : p.Fits .scoped t
  resolved : p.Resolved t
  constraints : (p.published t).Constraints
  select : selectFunction (functionKey K) 0 (C.module p.target.artifact.id).functions = some (K, F)
  defined : F.isDeclaration = false
  publishes : C.Publishes p.target.artifact K p

theorem Publish.published_stores (p : Publish) {b : Artifact} (hb : t.Stores b) :
    (p.published t).Stores b := Tables.Stores.effects (hb.effects _) _

variable (h : C.Publication t p K F)
include h

/-- The row of a global under a key the stream declares is the stream's. -/
theorem Contents.Publication.global_eq {r : EntityRecord} (hr : r ∈ p.entities)
    (hk : r.kind = "global") {y : Entity} (hy : y ∈ t.entities)
    (hpair : y.localPair = (p.target.artifact.id, r.localKey)) :
    y = entityRow p.target.artifact r := by
  obtain ⟨hart, hl⟩ := Prod.mk.inj hpair
  rw [h.publishes.entities] at hr
  obtain ⟨j, rfl⟩ := functionGraph_global hr hk
  obtain ⟨b, _, _, _, hp⟩ := h.conforms.sound.entities y hy
  have hglobal : y.kind = "global" := (hp.of_global (hl ▸ ⟨j, rfl⟩)).1
  obtain ⟨a, i, hs, rfl⟩ := (h.conforms.globals y hy hglobal).record
  have hid : a.id = p.target.artifact.id := hart
  have hij : i = j := decimal_inj ((String.append_right_inj "global:g").mp hl)
  have hsha := Tables.Stores.sha_eq h.fits.constraints hs h.fits.stores hid
  unfold entityRow
  rw [hid, hij, entityId_congr hsha]

theorem Contents.Publication.shared_global {r : EntityRecord} (hr : r ∈ p.entities)
    (hk : r.kind = "global") : p.sharedRow t r = entityRow p.target.artifact r := by
  unfold Publish.sharedRow
  cases hl : lookup Entity.localPair (p.target.artifact.id, r.localKey) t.entities with
  | none => rfl
  | some y =>
    rw [h.global_eq hr hk (mem_of_lookup hl) (key_of_lookup hl)]
    rfl

theorem Contents.Publication.mem_global {r : EntityRecord} (hr : r ∈ p.entities)
    (hk : r.kind = "global") : entityRow p.target.artifact r ∈ (p.published t).entities := by
  rw [← h.shared_global hr hk]
  exact h.fits.mem_shared h.resolved hr (by simp [EntityRecord.interior, hk])

/-- No row of a global goes. -/
theorem Contents.Publication.globals_stay : ∀ x ∈ t.entities, x.kind = "global" →
    x ∈ (p.published t).entities := by
  intro x hx hk
  obtain ⟨b, _, _, _, hp⟩ := h.conforms.sound.entities x hx
  have hplace : GlobalKey x.localKey ∧ x.functionId = none := by
    rcases hp with ⟨_, hf, _, _⟩ | ⟨_, hl, ho⟩ | ⟨_, _, hg, _, _⟩
    · rw [hk] at hf
      exact absurd hf (by decide)
    · exact ⟨hl, ho⟩
    · exact absurd hk hg
  by_cases hnamed : ∃ r ∈ p.entities, x.artifactId = p.target.artifact.id ∧ x.localKey = r.localKey
  · obtain ⟨r, hr, hart, hl⟩ := hnamed
    have hrk : r.kind = "global" := by
      rcases h.fits.own.entities r hr with ⟨_, key, hkey⟩ | ⟨hg, _⟩ | ⟨_, _, hown⟩
      · exact absurd (hl.trans hkey) (hplace.1.ne_functionLocal key)
      · exact hg
      · exact absurd (hl ▸ hplace.1) (Territory.not_global hown)
    rw [h.global_eq hr hrk hx (Prod.ext hart hl)]
    exact h.mem_global hr hrk
  · have hm := h.fits.mem_kept h.resolved hx (by simp [hplace.2]) fun r hr hc =>
      hnamed ⟨r, hr, hc⟩
    have hid : x.id ≠ p.target.handle := by
      intro hid
      rw [h.fits.named] at hid
      have hl := (h.fits.entity_of_id (colon_mem_functionLocal _) hx hid).2
      exact hplace.1.ne_functionLocal _ hl
    rwa [if_neg hid] at hm

/-- The globals after are those before and those of the stream. -/
theorem Contents.Publication.globals_from {x : Entity} (hx : x ∈ (p.published t).entities)
    (hk : x.kind = "global") :
    x ∈ t.entities ∨ ∃ r ∈ p.entities, r.kind = "global" ∧ x = entityRow p.target.artifact r := by
  cases h.fits.row h.resolved hx with
  | @own r hr hi hrow =>
    have hrk : r.kind = "global" := by
      rw [hrow] at hk
      exact hk
    simp [EntityRecord.interior, hrk] at hi
  | @shared r hr hi hart _ hl hkey _ =>
    have hrk : r.kind = "global" := by
      rcases h.fits.own.entities r hr with ⟨_, key, hf⟩ | ⟨hg, _⟩ | ⟨_, _, hown⟩
      · rcases hkey with ⟨hxf, _⟩ | ⟨_, hg⟩
        · rw [hk] at hxf
          exact absurd hxf (by decide)
        · exact absurd (hl.trans hf) (hg.ne_functionLocal key)
      · exact hg
      · rw [(h.fits.own.interior_iff hr).mpr hown] at hi
        cases hi
    refine .inr ⟨r, hr, hrk, ?_⟩
    rw [← h.shared_global hr hrk]
    exact h.fits.shared_eq h.resolved h.constraints hr hi hx hart hl
  | @kept y hy _ _ hrow =>
    split at hrow
    · rename_i hid
      exfalso
      rw [h.fits.named] at hid
      obtain ⟨b, _, _, _, hp⟩ := h.conforms.sound.entities y hy
      have hl := (h.fits.entity_of_id (colon_mem_functionLocal _) hy hid).2
      have hyk : y.kind = "global" := by
        rw [hrow] at hk
        exact hk
      rw [(hp.of_functionLocal hl).1] at hyk
      exact absurd hyk (by decide)
    · exact .inl (hrow ▸ hy)

theorem Contents.Publication.function_key : ∀ r ∈ p.entities, r.kind = "function" →
    r.localKey = functionLocal p.target.key := by
  intro r hr hk
  have hkey : functionLocal p.target.key = functionLocal (functionKey K) :=
    entityId_right_inj (colon_mem_functionLocal _) (colon_mem_functionLocal _)
      (h.fits.named.symm.trans h.publishes.handle)
  rw [h.publishes.entities] at hr
  rw [(functionGraph_function h.select).2 r hr hk, hkey]
  rfl

/-- **Other functions stand as before.** -/
theorem Contents.Publication.other {b : Artifact} {J : Nat} {G : Function}
    (hh : C.Holds t b J G e m) (hid : e.id ≠ p.target.handle) :
    C.Holds (p.published t) b J G e m := by
  have hrows : (p.published t).materializations = _ :=
    congrArg Tables.materializations (h.fits.published_eq h.resolved)
  refine hh.of_same (p.published_stores hh.stores)
    ((h.fits.functionRows h.resolved h.function_key hh.cols.2.2.2.1 hid).mpr hh.entity) ?_
    ((h.fits.snapshotReplaced h.resolved).others e.id hid) h.globals_stay
  rw [hrows]
  refine mem_updateWhere.mpr ⟨m, hh.row, (if_neg ?_).symm⟩
  rw [Bool.and_eq_true, decide_eq_true_eq, hh.handle]
  exact fun hc => hid hc.1

/-- **The function stands as its stream says.** -/
theorem Contents.Publication.stands (hh : C.Holds t p.target.artifact K F e m)
    (howner : m.claimOwner = some p.owner) :
    C.Holds (p.published t) p.target.artifact K F
      ((catalogEntry F K).faceRow p.target.artifact [] (some F.text) .structureReady)
      (Materialization.published p.run m) := by
  obtain ⟨hfunction, _⟩ := @functionGraph_function C.postDominators _ _ K F h.select
  have hmem : Selected.functionEntity ⟨C.module p.target.artifact.id, K, F⟩ ∈ p.entities := by
    rw [h.publishes.entities]
    exact hfunction
  have hrep := h.fits.snapshotReplaced h.resolved
  have hid : e.id = p.target.handle := hh.cols.1.trans h.publishes.handle.symm
  have hrows : (p.published t).materializations = _ :=
    congrArg Tables.materializations (h.fits.published_eq h.resolved)
  have hentity : (catalogEntry F K).faceRow p.target.artifact [] (some F.text) .structureReady =
      p.sharedRow t (Selected.functionEntity ⟨C.module p.target.artifact.id, K, F⟩) := by
    have hl : lookup Entity.localPair (p.target.artifact.id,
        (Selected.functionEntity ⟨C.module p.target.artifact.id, K, F⟩).localKey) t.entities =
        some e := by
      have hpair : e.localPair = (p.target.artifact.id,
          (Selected.functionEntity ⟨C.module p.target.artifact.id, K, F⟩).localKey) :=
        Prod.ext hh.cols.2.1 hh.cols.2.2.1
      rw [← hpair]
      exact lookup_self h.fits.constraints.entityLocal hh.entity
    obtain ⟨attributes, text, state, hface⟩ := hh.face
    unfold Publish.sharedRow
    rw [hl, hface]
    rfl
  refine ⟨p.published_stores hh.stores, hh.function, ?_, ?_, hh.artifact, hh.handle.trans hh.cols.1,
    ⟨_, _, _, rfl⟩, fun hd => ?_, fun _ => ⟨EntityState.noConfusion, Status.noConfusion⟩,
    fun hn => ?_, fun run hrun => ⟨p, h.publishes, Option.some.inj hrun, ?_⟩⟩
  · rw [hentity]
    exact h.fits.mem_shared h.resolved hmem rfl
  · rw [hrows]
    refine mem_updateWhere.mpr ⟨m, hh.row, (if_pos ?_).symm⟩
    rw [Bool.and_eq_true, decide_eq_true_eq, decide_eq_true_eq]
    exact ⟨hh.handle.trans hid, howner⟩
  · rw [h.defined] at hd
    cases hd
  · cases hn
  · exact ⟨hrep.entities, hrep.relations, hrep.sources, hrep.capabilities,
      fun r hr hk => h.mem_global hr hk⟩

/-- **A publish of a function keeps the invariant.** -/
theorem Contents.Publication.published (hh : C.Holds t p.target.artifact K F e m)
    (howner : m.claimOwner = some p.owner) : Conforms C (p.published t) := by
  have hstands := h.stands hh howner
  have hhandle := h.publishes.handle
  have hother : ∀ x ∈ t.entities, x.kind = "function" → x.id ≠ p.target.handle →
      x ∈ (p.published t).entities := fun x hx hk hid =>
    (h.fits.functionRows h.resolved h.function_key hk hid).mpr hx
  refine ⟨h.fits.sound_published h.resolved, fun x hx hk => ?_, fun m' hm' => ?_, fun f hf => ?_,
    fun x hx hk => ?_⟩
  · by_cases hid : x.id = p.target.handle
    · obtain rfl := List.inj_on_of_nodup_map h.constraints.entityKey hx hstands.entity
        (hid.trans hhandle)
      exact ⟨_, K, F, _, hstands⟩
    · have hxt := (h.fits.functionRows h.resolved h.function_key hk hid).mp hx
      obtain ⟨b, J, G, m₀, hh₀⟩ := h.conforms.functions x hxt hk
      exact ⟨b, J, G, m₀, h.other hh₀ hid⟩
  · have hrows : (p.published t).materializations = _ :=
      congrArg Tables.materializations (h.fits.published_eq h.resolved)
    rw [hrows] at hm'
    obtain ⟨m₀, hm₀, rfl⟩ := mem_updateWhere.mp hm'
    obtain ⟨x, hx, hk, hfn, hart⟩ := h.conforms.materializations m₀ hm₀
    obtain ⟨x', hx', hk', hid', hart'⟩ : ∃ x' ∈ (p.published t).entities, x'.kind = "function" ∧
        x'.id = x.id ∧ x'.artifactId = x.artifactId := by
      by_cases hid : x.id = p.target.handle
      · refine ⟨_, hstands.entity, rfl, hhandle.symm.trans hid.symm, ?_⟩
        rw [h.fits.named] at hid
        exact (h.fits.entity_of_id (colon_mem_functionLocal _) hx hid).1.symm
      · exact ⟨x, hother x hx hk hid, hk, rfl, rfl⟩
    refine ⟨x', hx', hk', ?_, ?_⟩
    · rw [hid', ← hfn]
      split
      · rfl
      · rfl
    · rw [hart', ← hart]
      split
      · rfl
      · rfl
  · have hne : f ≠ p.target.handle := by
      rintro rfl
      exact hf _ hstands.entity hhandle.symm rfl
    refine (h.conforms.owners f fun x hx hid hk => ?_).of_same
      ((h.fits.snapshotReplaced h.resolved).others f hne)
    exact hf x (hother x hx hk fun hc => hne (hid.symm.trans hc)) hid hk
  · rcases h.globals_from hx hk with hxt | ⟨r, hr, hrk, rfl⟩
    · obtain ⟨a, J, G, r, hs, hrest⟩ := h.conforms.globals x hxt hk
      exact ⟨a, J, G, r, p.published_stores hs, hrest⟩
    · rw [h.publishes.entities] at hr
      exact ⟨p.target.artifact, K, F, r, p.published_stores hh.stores, hh.function, h.defined, hr, hrk,
        rfl⟩

end PublishPhase

/-! ## 4. Calls -/

section Calls

variable {C : Contents} {t : Tables} {db db' db₁ : Database} {target : Target}

/-- The function a call claims is no declaration. -/
theorem enter_undeclared {handle : String} {refresh : Bool}
    (h : enter t handle refresh = .ok (.analyse target)) :
    (t.materialization handle).any (·.status = .declarationOnly) = false := by
  have hans : ∀ (r : Materialized) (x : Except Thrown String),
      x.map (fun _ => Entry.answered r) ≠ .ok (.analyse target) := by
    intro r x hx
    cases x with
    | error e => cases hx
    | ok _ => cases hx
  unfold enter at h
  split at h
  · cases h
  · split at h
    · cases h
    · dsimp only at h
      split at h
      · exact absurd h (hans _ _)
      · split at h
        · exact absurd h (hans _ _)
        · rename_i hstatus
          exact Bool.eq_false_iff.mpr hstatus

/-- **The function a call claims**, as it stands. -/
theorem Conforms.enter (h : Conforms C t) (hc : t.Constraints) {handle : String} {refresh : Bool}
    (hent : Irez.enter t handle refresh = .ok (.analyse target)) :
    ∃ K F m, C.Holds t target.artifact K F target.function m ∧ F.isDeclaration = false ∧
      target.key = functionKey K := by
  obtain ⟨hfn, hhandle, hart⟩ := enter_analyse hent
  obtain ⟨hlook, hkind⟩ := Option.filter_eq_some_iff.mp hfn
  have hst : t.Stores target.artifact := ⟨_, mem_of_lookup hart, rfl, rfl⟩
  have haid : target.artifact.id = target.function.artifactId := key_of_lookup hart
  obtain ⟨a, K, F, m, hh⟩ := h.functions _ (mem_of_lookup hlook) (of_decide_eq_true hkind)
  obtain ⟨_, hfa, hfl, _, _⟩ := hh.cols
  have hid : a.id = target.artifact.id := hfa.symm.trans haid.symm
  have hh := hh.congr hst hid (Tables.Stores.sha_eq hc hh.stores hst hid)
  refine ⟨K, F, m, hh, ?_, Target.key_of_functionLocal hfl⟩
  have hund := enter_undeclared hent
  rw [← hhandle, show target.handle = target.function.id from rfl, h.materialization_eq hc hh,
    Option.any_some] at hund
  cases hd : F.isDeclaration with
  | false => rfl
  | true =>
    have hstatus : m.status = .declarationOnly := by
      rw [(hh.declared hd).2]
      exact if_pos hd
    rw [decide_eq_true hstatus] at hund
    cases hund

/-- The row of a function with a body is no declaration's. -/
theorem Conforms.defined_row (h : Conforms C t) (hc : t.Constraints) {a : Artifact} {K : Nat}
    {F : Function} {e : Entity} {m m' : Materialization} (hh : C.Holds t a K F e m)
    (hd : F.isDeclaration = false) (hm : m' ∈ t.materializations) (hid : m'.functionId = e.id) :
    m'.status ≠ .declarationOnly := by
  rw [h.row_unique hc hm hh.row (hid.trans hh.handle.symm)]
  exact (hh.defined hd).2

/-- **A claim keeps the invariant**, and the function's row is claimed. -/
theorem Conforms.claimFunction (h : Conforms C db.toTables) {io : Faults} {d : ClaimDraw} {K : Nat}
    {F : Function} {m : Materialization}
    (hh : C.Holds db.toTables target.artifact K F target.function m) (hd : F.isDeclaration = false)
    (hc : Irez.claimFunction io d target db = .ok db₁) :
    Conforms C db₁.toTables ∧ C.Holds db₁.toTables target.artifact K F target.function
        (Materialization.claimed d.owner d.claimedAt m) ∧
      ∀ b J G x m', C.Holds db.toTables b J G x m' → x.id ≠ target.handle →
        C.Holds db₁.toTables b J G x m' := by
  have hsound := h.sound.claimFunction rfl hc
  have hstores : ∀ b, db.Stores b → db₁.Stores b := fun b hb => claimFunction_stores hc hb
  obtain ⟨_, _, hone, _, ht⟩ := claimFunction_ok hc
  have hrows : db₁.materializations = _ := congrArg Tables.materializations ht
  have hconf : Conforms C db₁.toTables := by
    refine h.of_rows hsound hstores (by rw [ht]) (by rw [ht]) (by rw [ht]) (by rw [ht])
      (fun m => if m.functionId = target.handle && m.claimable d.now then
        Materialization.claimed d.owner d.claimedAt m else m) (by rw [hrows]; rfl) fun m' hm' => ?_
    split
    · rename_i hcond
      rw [Bool.and_eq_true, decide_eq_true_eq] at hcond
      exact .inr ⟨rfl, rfl, rfl, h.defined_row db.constraints hh hd hm' hcond.1,
        Status.noConfusion⟩
    · exact .inl rfl
  have hclaimable : m.claimable d.now = true := by
    obtain ⟨m', hm'⟩ := List.length_pos_iff_exists_mem.mp (lt_of_lt_of_eq Nat.one_pos hone.symm)
    obtain ⟨hmem, hcond⟩ := List.mem_filter.mp hm'
    rw [Bool.and_eq_true, decide_eq_true_eq] at hcond
    rw [← h.row_unique db.constraints hmem hh.row (hcond.1.trans hh.handle.symm)]
    exact hcond.2
  have hrow : Materialization.claimed d.owner d.claimedAt m ∈ db₁.materializations := by
    rw [hrows]
    refine mem_updateWhere.mpr ⟨m, hh.row, (if_pos ?_).symm⟩
    rw [Bool.and_eq_true, decide_eq_true_eq]
    exact ⟨hh.handle, hclaimable⟩
  have hsame : ∀ f, SameRows f db.toTables db₁.toTables := fun f =>
    .of_owned (fun x _ => by rw [ht]) (by rw [ht]) (by rw [ht]) (by rw [ht])
  have hglobals : ∀ x ∈ db.entities, x.kind = "global" → x ∈ db₁.entities := by
    rw [ht]
    exact fun x hx _ => hx
  refine ⟨hconf, ?_, fun b J G x m' hh' hid => ?_⟩
  · obtain ⟨F', m', hh'⟩ := hconf.holds db₁.constraints (hstores _ hh.stores)
      (e := target.function) (by rw [ht]; exact hh.entity) hh.cols.2.1 hh.cols.2.2.1
    obtain rfl : F' = F := Option.some.inj (hh'.function.symm.trans hh.function)
    rwa [hconf.row_unique db₁.constraints hh'.row hrow (hh'.handle.trans hh.handle.symm)] at hh'
  · refine hh'.of_same (hstores _ hh'.stores) (by rw [ht]; exact hh'.entity) ?_ (hsame _) hglobals
    rw [hrows]
    refine mem_updateWhere.mpr ⟨m', hh'.row, (if_neg ?_).symm⟩
    rw [Bool.and_eq_true, decide_eq_true_eq, hh'.handle]
    exact fun hcond => hid hcond.1

theorem Conforms.failFunction (h : Conforms C db.toTables) {io : Faults} {K : Nat} {F : Function}
    {m : Materialization} {run owner message : String} {endedAt : Time}
    (hh : C.Holds db.toTables target.artifact K F target.function m) (hd : F.isDeclaration = false)
    (hf : Irez.failFunction io target run owner message endedAt db = .ok db') :
    Conforms C db'.toTables := by
  have hsound := h.sound.failFunction rfl hf
  have ht := failFunction_ok hf
  have hrows : db'.materializations = _ := congrArg Tables.materializations ht
  refine h.of_rows hsound (fun b hb => by rw [ht]; exact hb) (by rw [ht]) (by rw [ht]) (by rw [ht])
    (by rw [ht])
    (fun m => if m.functionId = target.handle && m.claimOwner = some owner then
      Materialization.failed (errorJson message) m else m) (by rw [hrows]; rfl) fun m' hm' => ?_
  split
  · rename_i hcond
    rw [Bool.and_eq_true, decide_eq_true_eq] at hcond
    exact .inr ⟨rfl, rfl, rfl, h.defined_row db.constraints hh hd hm' hcond.1, Status.noConfusion⟩
  · exact .inl rfl

variable {env : Environment} {graph : String → String → Outcome} {d : MaterializeDraw}
  {handle : String} {refresh : Bool}

/-- The stream that a successful `materialize` published was accepted. -/
theorem materialize_published {run : String} {n k : Nat}
    (h : materialize env graph d handle refresh db = (db', .ok (.published run n k))) :
    ∃ target db₁ records, Irez.enter db.toTables handle refresh = .ok (.analyse target) ∧
      Irez.claimFunction env.claim d.claim target db = .ok db₁ ∧
      accept (graph target.artifact.storedPath target.key) = .ok records ∧
      (Publish.of target d.claim.runId d.claim.owner d.publish records).exec env.publish db₁ =
        .ok db' ∧ run = d.claim.runId := by
  have hfail : ∀ (target : Target) (e : Thrown) (db₁ : Database),
      failWith env.failure target d e db₁ ≠ (db', .ok (.published run n k)) := by
    intro target e db₁ he
    unfold failWith at he
    split at he
    · cases he
    · cases he
  unfold materialize at h
  split at h
  · cases h
  · rename_i response hent
    obtain ⟨rfl, hr⟩ := Prod.mk.inj h
    obtain rfl := Except.ok.inj hr
    -- an answer without a claim is no publish
    exfalso
    unfold Irez.enter at hent
    split at hent
    · cases hent
    · split at hent
      · cases hent
      · dsimp only at hent
        split at hent
        · cases hi : investigationId db.toTables <;> rw [hi] at hent <;> cases hent
        · split at hent
          · cases hi : investigationId db.toTables <;> rw [hi] at hent <;> cases hent
          · cases hent
  · rename_i target hent
    split at h
    · cases h
    · rename_i db₁ hclaim
      unfold finish at h
      split at h
      · exact absurd h (hfail _ _ _)
      · rename_i records hacc
        split at h
        · exact absurd h (hfail _ _ _)
        · rename_i db₂ hpub
          cases h
          exact ⟨target, db₁, records, hent, hclaim, hacc, hpub, rfl⟩

/-- **A successful analysis**: the function stands as its stream says, and the others stand as
    before. -/
theorem Conforms.analysed (h : Conforms C db.toTables) (hu : C.Unambiguous)
    (hg : ∀ target, Irez.enter db.toTables handle refresh = .ok (.analyse target) →
      C.Analyses target (graph target.artifact.storedPath target.key))
    {run : String} {n k : Nat}
    (hm : materialize env graph d handle refresh db = (db', .ok (.published run n k))) :
    ∃ a K F e m, C.Holds db.toTables a K F e m ∧ e.id = handle ∧ F.isDeclaration = false ∧
      Conforms C db'.toTables ∧
      C.Holds db'.toTables a K F ((catalogEntry F K).faceRow a [] (some F.text) .structureReady)
        (Materialization.published run (Materialization.claimed d.claim.owner d.claim.claimedAt m)) ∧
      ∀ b J G x m', C.Holds db.toTables b J G x m' → x.id ≠ handle →
        C.Holds db'.toTables b J G x m' := by
  obtain ⟨target, db₁, records, hent, hclaim, hacc, hexec, rfl⟩ := materialize_published hm
  obtain ⟨K, F, m, hh, hd, hkey⟩ := h.enter db.constraints hent
  obtain ⟨hconf₁, hh₁, hother₁⟩ := h.claimFunction hh hd hclaim
  obtain ⟨_, hnamed⟩ := h.sound.enter db.constraints hent
  have hsel := (hu target.artifact.id).select hh.function hd
  have hrecords : records = functionGraph C.postDominators (C.module target.artifact.id)
      (functionKey K) := by
    rw [hg target hent records hacc, hkey]
    rfl
  have hown : OwnStream target.key records := by
    rw [hrecords, hkey]
    exact ownStream_of_select C.graphs hsel
  obtain ⟨hfits, hres, ht⟩ := Publish.exec_published hconf₁.sound
    (claimFunction_stores hclaim hh.stores) hnamed
    (hown.own hkey d.claim.runId d.claim.owner d.publish) hexec
  have hpub : C.Publication db₁.toTables
      (Publish.of target d.claim.runId d.claim.owner d.publish records) K F :=
    { conforms := hconf₁, fits := hfits, resolved := hres, constraints := ht ▸ db'.constraints
      select := hsel, defined := hd
      publishes :=
        { entities := congrArg entityRecords hrecords
          relations := congrArg relationRecords hrecords
          sources := congrArg sourceRecords hrecords
          id := rfl, sha := rfl
          handle := by
            show target.handle = entityId target.artifact (functionLocal (functionKey K))
            rw [hnamed, hkey] } }
  have hhandle := (enter_analyse hent).2.1
  refine ⟨target.artifact, K, F, target.function, m, hh, hhandle, hd, ?_, ?_,
    fun b J G x m' hh' hid => ?_⟩
  · rw [ht]
    exact hpub.published hh₁ rfl
  · rw [ht]
    exact hpub.stands hh₁ rfl
  · rw [ht]
    rw [← hhandle] at hid
    exact hpub.other (hother₁ b J G x m' hh' hid) hid

/-- **A `materialize` call keeps the invariant**, however it ends. -/
theorem Conforms.materialize (h : Conforms C db.toTables) (hu : C.Unambiguous)
    (hg : ∀ target, Irez.enter db.toTables handle refresh = .ok (.analyse target) →
      C.Analyses target (graph target.artifact.storedPath target.key))
    {result : Except Thrown Materialized}
    (hm : Irez.materialize env graph d handle refresh db = (db', result)) :
    Conforms C db'.toTables := by
  cases materialize_run hm with
  | answered => exact h
  | refused => exact h
  | abandoned hent hclaim =>
    obtain ⟨K, F, m, hh, hd, _⟩ := h.enter db.constraints hent
    exact (h.claimFunction hh hd hclaim).1
  | failed hent hclaim hfail =>
    obtain ⟨K, F, m, hh, hd, _⟩ := h.enter db.constraints hent
    obtain ⟨hconf₁, hh₁, _⟩ := h.claimFunction hh hd hclaim
    exact hconf₁.failFunction hh₁ hd hfail
  | published =>
    obtain ⟨_, _, _, _, _, _, _, _, hconf, _⟩ := h.analysed hu hg hm
    exact hconf

end Calls

/-! ## 5. Histories -/

section Histories

variable {C : Contents} {db db' : Database}

/-- **One call keeps the invariant.** -/
theorem Conforms.attempt (h : Conforms C db.toTables) (hu : C.Unambiguous)
    (ha : Attempt C db db') : Conforms C db'.toTables := by
  cases ha with
  | @store _ a _ _ hwell he =>
    have haside : (Statement.insertArtifact a).Aside := hwell
    rw [exec_ok he]
    exact h.aside haside
  | mark hs he =>
    rw [exec_ok he]
    rcases hs with rfl | rfl
    · exact h.aside trivial
    · exact h.aside trivial
  | catalog ha hg hr => exact h.refreshCatalog ha hg hr
  | materialize hg hm => exact h.materialize hu hg hm

/-- **The tables conform to the contents after every history.** -/
theorem History.conforms (h : History C db) (hu : C.Unambiguous) : Conforms C db.toTables := by
  obtain ⟨db₀, h₀, hrun⟩ := h
  induction hrun with
  | refl => exact Conforms.fresh C h₀
  | tail _ hstep ih => exact ih.attempt hu hstep

theorem History.tail (h : History C db) (hrun : Relation.ReflTransGen (Attempt C) db db') :
    History C db' := by
  obtain ⟨db₀, h₀, h⟩ := h
  exact ⟨db₀, h₀, h.trans hrun⟩

/-! ## 6. Commands as histories -/

/-- The columns of an artifact that no statement writes. -/
def Artifact.file (a : Artifact) : String × String × String × String :=
  (a.id, a.contentSha256, a.storedPath, a.originalPath)

theorem Statement.files_eq {s : Statement} (hs : ∀ row, s ≠ .insertArtifact row) (t : Tables) :
    (s.effect t).artifacts.map Artifact.file = t.artifacts.map Artifact.file := by
  cases s with
  | insertArtifact row => exact absurd rfl (hs row)
  | requestFull | claimCatalog | setCatalogRun | publishArtifact | failArtifact | completeFull =>
    refine map_updateWhere ?_ t.artifacts
    intro a
    rfl
  | _ => rfl

/-- The adapter answers for every stored artifact from its module, or fails. -/
structure Contents.Answered (C : Contents) (t : Tables) (adapter : Adapter) : Prop where
  catalogs : ∀ a ∈ t.artifacts, C.Catalogs a (adapter.catalog a.storedPath)
  graphs : ∀ target, target.artifact ∈ t.artifacts →
    C.Analyses target (adapter.functionGraph target.artifact.storedPath target.key)

theorem Contents.Answered.of_files {t t' : Tables} {adapter : Adapter} (h : C.Answered t adapter)
    (hf : t'.artifacts.map Artifact.file = t.artifacts.map Artifact.file) :
    C.Answered t' adapter := by
  have hback : ∀ a' ∈ t'.artifacts, ∃ a ∈ t.artifacts, a.id = a'.id ∧
      a.storedPath = a'.storedPath := by
    intro a' ha'
    have hm : a'.file ∈ t.artifacts.map Artifact.file := hf ▸ List.mem_map_of_mem ha'
    obtain ⟨a, ha, he⟩ := List.mem_map.mp hm
    simp only [Artifact.file, Prod.mk.injEq] at he
    exact ⟨a, ha, he.1, he.2.2.1⟩
  constructor
  · intro a' ha' records hr
    obtain ⟨a, ha, hid, hpath⟩ := hback a' ha'
    rw [← hid]
    rw [← hpath] at hr
    exact h.catalogs a ha records hr
  · intro target ht records hr
    obtain ⟨a, ha, hid, hpath⟩ := hback _ ht
    rw [← hpath] at hr
    have hsame := h.graphs ⟨target.function, a⟩ ha records hr
    rw [← hid]
    exact hsame

/-- The files of the artifacts stay through a `materialize` call. -/
theorem materialize_files {env : Environment} {graph : String → String → Outcome}
    {d : MaterializeDraw} {handle : String} {refresh : Bool} {result : Except Thrown Materialized}
    (h : materialize env graph d handle refresh db = (db', result)) :
    db'.artifacts = db.artifacts := by
  have hclaimed : ∀ {target : Target} {db₁ : Database},
      claimFunction env.claim d.claim target db = .ok db₁ → db₁.artifacts = db.artifacts := by
    intro target db₁ hc
    obtain ⟨_, _, _, _, ht⟩ := claimFunction_ok hc
    rw [ht]
  cases materialize_run h with
  | answered => rfl
  | refused => rfl
  | abandoned _ hclaim => exact hclaimed hclaim
  | failed _ hclaim hfail =>
    have ht := failFunction_ok hfail
    rw [ht]
    exact hclaimed hclaim
  | published _ hclaim _ hpub =>
    obtain ⟨_, _, _, _, _, ht⟩ := Publish.exec_ok hpub
    rw [ht, Publish.writeStatements_effect, Publish.replaceStatements_effect]
    exact hclaimed hclaim

theorem effects_files {ss : List Statement} (hs : ∀ s ∈ ss, ∀ row, s ≠ .insertArtifact row)
    (t : Tables) : (effects ss t).artifacts.map Artifact.file = t.artifacts.map Artifact.file :=
  effects_frame (fun t => t.artifacts.map Artifact.file)
    (fun s hm t => Statement.files_eq (hs s hm) t) t

theorem refreshCatalog_files {env : Environment} {graph : String → Outcome} {d : CatalogDraw}
    {a : Artifact} {index : IndexLevel} {result : Except Thrown Unit}
    (h : refreshCatalog env graph d a index db = (db', result)) :
    db'.artifacts.map Artifact.file = db.artifacts.map Artifact.file := by
  have hclaimed : ∀ {db₁ : Database}, claimCatalog env.claim d.claim a index db = .ok db₁ →
      db₁.artifacts.map Artifact.file = db.artifacts.map Artifact.file := by
    intro db₁ hc
    obtain ⟨run, _, ht⟩ := claimCatalog_effects hc
    rw [ht]
    refine effects_files (fun s hs row => ?_) _
    simp only [List.mem_cons, List.not_mem_nil, or_false] at hs
    rcases hs with rfl | rfl | rfl
    · exact Statement.noConfusion
    · exact Statement.noConfusion
    · exact Statement.noConfusion
  cases refreshCatalog_run h with
  | refused => rfl
  | abandoned hclaim => exact hclaimed hclaim
  | failed hclaim hfail =>
    refine Eq.trans ?_ (hclaimed hclaim)
    rw [transaction_ok hfail]
    refine effects_files (fun s hs row => ?_) _
    simp only [failCatalogStatements, List.mem_cons, List.not_mem_nil, or_false] at hs
    rcases hs with rfl | rfl
    · exact Statement.noConfusion
    · exact Statement.noConfusion
  | published hclaim _ _ hpub =>
    refine Eq.trans ?_ (hclaimed hclaim)
    rw [transaction_ok hpub]
    refine effects_files (fun s hs row => ?_) _
    unfold publishCatalogStatements at hs
    rw [List.mem_append, List.mem_append, List.mem_singleton, List.mem_singleton] at hs
    rcases hs with (rfl | hs) | rfl
    · exact Statement.noConfusion
    · obtain ⟨f, _, hs⟩ := List.mem_flatMap.mp hs
      simp only [FunctionRecord.statements, List.mem_cons, List.not_mem_nil, or_false] at hs
      rcases hs with rfl | rfl | rfl
      · exact Statement.noConfusion
      · exact Statement.noConfusion
      · exact Statement.noConfusion
    · exact Statement.noConfusion

/-- A `materialize` call with an adapter that answers is an attempt. -/
theorem Contents.Answered.materialize {adapter : Adapter} (h : C.Answered db.toTables adapter)
    {env : Environment} {d : MaterializeDraw} {handle : String} {refresh : Bool}
    {result : Except Thrown Materialized}
    (hm : Irez.materialize env adapter.functionGraph d handle refresh db = (db', result)) :
    Attempt C db db' ∧ C.Answered db'.toTables adapter := by
  refine ⟨.materialize (fun target hent => ?_) hm,
    h.of_files (congrArg (List.map Artifact.file) (materialize_files hm))⟩
  exact h.graphs target (mem_of_lookup (enter_analyse hent).2.2)

/-- **The full index is a history.** -/
theorem Contents.Answered.materializeAll {adapter : Adapter} {handles : List String}
    (h : C.Answered db.toTables adapter) {env : Environment} {draw : String → MaterializeDraw}
    {result : Except Thrown Unit}
    (hm : Irez.materializeAll env adapter.functionGraph draw handles db = (db', result)) :
    Relation.ReflTransGen (Attempt C) db db' := by
  induction handles generalizing db with
  | nil =>
    cases hm
    exact .refl
  | cons handle rest ih =>
    unfold Irez.materializeAll at hm
    split at hm
    · rename_i h₁
      cases hm
      exact .single (h.materialize h₁).1
    · rename_i h₁
      obtain ⟨ha, hans⟩ := h.materialize h₁
      exact .head ha (ih hans hm)

/-- **`ingest` and `reindex` of a stored artifact are histories**, however they end. -/
theorem Contents.Answered.indexArtifact {adapter : Adapter} {a : Artifact}
    (h : C.Answered db.toTables adapter) (ha : a ∈ db.artifacts) {env : Environment}
    {d : IngestDraw} {created refresh : Bool} {index : IndexLevel} {result : Except Thrown Ingested}
    (hi : Irez.indexArtifact env adapter d a created index refresh db = (db', result)) :
    Relation.ReflTransGen (Attempt C) db db' := by
  have hmark : ∀ {s : Statement} {db₀ db₁ : Database}, (s = .requestFull a.id ∨ s = .completeFull a.id) →
      (if index = .full then exec env.claim s db₀ else .ok db₀) = .ok db₁ →
      Relation.ReflTransGen (Attempt C) db₀ db₁ ∧
        db₁.artifacts.map Artifact.file = db₀.artifacts.map Artifact.file := by
    intro s db₀ db₁ hs he
    split at he
    · refine ⟨.single (.mark hs he), ?_⟩
      rw [exec_ok he]
      exact Statement.files_eq (fun row hrow => by rcases hs with rfl | rfl <;> cases hrow) _
    · cases he
      exact ⟨.refl, rfl⟩
  unfold Irez.indexArtifact at hi
  split at hi
  · cases hi
    exact .refl
  · rename_i db₁ h₁
    obtain ⟨hrun₁, hfiles₁⟩ := hmark (.inl rfl) h₁
    have hst₁ : db₁.Stores a := by
      have hm : a.file ∈ db₁.artifacts.map Artifact.file := hfiles₁ ▸ List.mem_map_of_mem ha
      obtain ⟨row, hrow, he⟩ := List.mem_map.mp hm
      simp only [Artifact.file, Prod.mk.injEq] at he
      exact ⟨row, hrow, he.1, he.2.1⟩
    have hcatalog : ∀ {db₂ : Database} {r : Except Thrown Unit},
        (if created || refresh || !a.catalogCurrent then
          refreshCatalog env adapter.catalog d.catalog a index db₁ else (db₁, .ok ())) = (db₂, r) →
        Relation.ReflTransGen (Attempt C) db db₂ ∧ C.Answered db₂.toTables adapter := by
      intro db₂ r h₂
      split at h₂
      · exact ⟨hrun₁.tail (.catalog hst₁ (h.catalogs a ha) h₂),
          h.of_files ((refreshCatalog_files h₂).trans hfiles₁)⟩
      · cases h₂
        exact ⟨hrun₁, h.of_files hfiles₁⟩
    dsimp only at hi
    split at hi
    · rename_i h₂
      cases hi
      exact (hcatalog h₂).1
    · rename_i db₂ _ h₂
      obtain ⟨hrun₂, hans₂⟩ := hcatalog h₂
      split at hi
      · cases hi
        exact hrun₂
      · have hall : ∀ {db₃ : Database} {r : Except Thrown Unit},
            (if index = .full then Irez.materializeAll env adapter.functionGraph d.materialize
              (db₂.definedFunctions a.id) db₂ else (db₂, .ok ())) = (db₃, r) →
            Relation.ReflTransGen (Attempt C) db db₃ := by
          intro db₃ r h₃
          split at h₃
          · exact hrun₂.trans (hans₂.materializeAll h₃)
          · cases h₃
            exact hrun₂
        split at hi
        · rename_i h₃
          cases hi
          exact hall h₃
        · rename_i db₃ _ h₃
          split at hi
          · cases hi
            exact hall h₃
          · rename_i db₄ h₄
            cases hi
            exact (hall h₃).trans (hmark (.inr rfl) h₄).1

theorem Contents.Answered.ensure {adapter : Adapter} (h : C.Answered db.toTables adapter)
    {env : Environment} {draw : Nat → Nat → MaterializeDraw}
    (he : EnsureStep env adapter.functionGraph draw db db') :
    Relation.ReflTransGen (Attempt C) db db' ∧ C.Answered db'.toTables adapter := by
  obtain ⟨i, j, handle, hfst⟩ := he
  have hcall : ensureMaterialized env adapter.functionGraph (draw i j) handle db =
      (db', (ensureMaterialized env adapter.functionGraph (draw i j) handle db).2) :=
    Prod.ext hfst rfl
  generalize (ensureMaterialized env adapter.functionGraph (draw i j) handle db).2 = result at hcall
  cases ensureMaterialized_run hcall with
  | nothing => exact ⟨.refl, h⟩
  | materialized _ _ _ _ hrun =>
    obtain ⟨ha, hans⟩ := h.materialize hrun
    exact ⟨.single ha, hans⟩

theorem Contents.Answered.ensures {adapter : Adapter} (h : C.Answered db.toTables adapter)
    {env : Environment} {draw : Nat → Nat → MaterializeDraw}
    (he : Relation.ReflTransGen (EnsureStep env adapter.functionGraph draw) db db') :
    Relation.ReflTransGen (Attempt C) db db' ∧ C.Answered db'.toTables adapter := by
  induction he with
  | refl => exact ⟨.refl, h⟩
  | tail _ hstep ih =>
    obtain ⟨hrun, hans⟩ := ih
    obtain ⟨hlast, hans'⟩ := hans.ensure hstep
    exact ⟨hrun.trans hlast, hans'⟩

theorem respond_fst {α : Type} {make : α → Response} {call : Database × Except Thrown α}
    {result : Except Thrown Response} (h : respond make call = (db', result)) :
    ∃ r, call = (db', r) := by
  have hfst : call.1 = db' := congrArg Prod.fst h
  exact ⟨call.2, Prod.ext hfst rfl⟩

/-- All that a query does to the database, answered or not, are materializations: on demand,
    or the one of `expand`. -/
theorem Query.perform_steps {env : Environment} {graph : String → String → Outcome}
    {draw : Nat → Nat → MaterializeDraw} {q : Query} {result : Except Thrown Response}
    (h : q.perform env graph draw db = (db', result)) :
    Relation.ReflTransGen (EnsureStep env graph draw) db db' ∨
      ∃ handle r, Irez.materialize env graph (draw 0 0) handle false db = (db', r) := by
  have hplain : ∀ {α : Type} {make : α → Response} {handle : String}
      {read : Tables → Except Thrown α},
      respond make (afterEnsure env graph (draw 0 0) handle read db) = (db', result) →
      Relation.ReflTransGen (EnsureStep env graph draw) db db' := by
    intro α make handle read hr
    obtain ⟨r, hcall⟩ := respond_fst hr
    exact .single (afterEnsure_step hcall)
  cases q with
  | expand handle =>
    obtain ⟨r, hcall⟩ := respond_fst h
    unfold Irez.expand at hcall
    split at hcall
    · cases hcall
      exact .inl .refl
    · split at hcall
      · cases hcall
        exact .inl .refl
      · cases hcall
        exact .inl .refl
      · rename_i function _
        split at hcall
        · rename_i h₁
          cases hcall
          exact .inr ⟨function, _, h₁⟩
        · rename_i h₁
          cases hcall
          exact .inr ⟨function, _, h₁⟩
  | context handle budget =>
    obtain ⟨r, hcall⟩ := respond_fst h
    unfold contextQuery at hcall
    split at hcall
    · rename_i h₁
      cases hcall
      exact .inl (.single (afterEnsure_step h₁))
    · rename_i db₁ shown h₁
      split at hcall
      · rename_i h₂
        cases hcall
        exact .inl (.tail (.single (afterEnsure_step h₁)) (afterEnsure_step h₂))
      · rename_i db₂ src h₂
        split at hcall
        · rename_i h₃
          cases hcall
          exact .inl (.tail (.tail (.single (afterEnsure_step h₁)) (afterEnsure_step h₂))
            (afterEnsure_step h₃))
        · rename_i h₃
          cases hcall
          exact .inl (.tail (.tail (.single (afterEnsure_step h₁)) (afterEnsure_step h₂))
            (afterEnsure_step h₃))
  | traceReturn handle selector budgetNodes budgetDepth detail includes =>
    obtain ⟨r, hcall⟩ := respond_fst h
    unfold Irez.traceReturn at hcall
    split at hcall
    · rename_i h₁
      cases hcall
      exact .inl (.single (afterEnsure_step h₁))
    · rename_i h₁
      split at hcall
      · rename_i h₂
        cases hcall
        exact .inl (.head (afterEnsure_step h₁) (runTrace_steps h₂))
      · rename_i h₂
        cases hcall
        exact .inl (.head (afterEnsure_step h₁) (runTrace_steps h₂))
  | traceStores handle budgetNodes budgetDepth detail includes =>
    obtain ⟨r, hcall⟩ := respond_fst h
    unfold Irez.traceStores at hcall
    split at hcall
    · rename_i h₁
      cases hcall
      exact .inl (.single (afterEnsure_step h₁))
    · rename_i h₁
      exact .inl (.head (afterEnsure_step h₁) (runTrace_steps hcall))
  | _ => exact .inl (hplain h)

/-- **Every query is a history**, however it ends. -/
theorem Contents.Answered.query {adapter : Adapter} (h : C.Answered db.toTables adapter)
    {env : Environment} {draw : Nat → Nat → MaterializeDraw} {q : Query}
    {result : Except Thrown Response}
    (hq : q.perform env adapter.functionGraph draw db = (db', result)) :
    Relation.ReflTransGen (Attempt C) db db' := by
  rcases Query.perform_steps hq with hsteps | ⟨handle, r, hm⟩
  · exact (h.ensures hsteps).1
  · exact .single (h.materialize hm).1

end Histories

/-! ## 7. Recorded functions -/

/-- A run is recorded for the function. -/
def Tables.Recorded (t : Tables) (f : String) : Prop :=
  ∃ m ∈ t.materializations, m.functionId = f ∧ m.analysisRunId ≠ none

section Recorded

variable {t : Tables} {f : String} {db db' : Database}

theorem recorded_updateWhere {p : Materialization → Bool} {g : Materialization → Materialization}
    (hg : ∀ m, (g m).functionId = m.functionId ∧
      (m.analysisRunId ≠ none → (g m).analysisRunId ≠ none)) {ms : List Materialization}
    (h : ∃ m ∈ ms, m.functionId = f ∧ m.analysisRunId ≠ none) :
    ∃ m ∈ updateWhere p g ms, m.functionId = f ∧ m.analysisRunId ≠ none := by
  obtain ⟨m, hm, hid, hrun⟩ := h
  refine ⟨_, mem_updateWhere.mpr ⟨m, hm, rfl⟩, ?_⟩
  split
  · exact ⟨(hg m).1.trans hid, (hg m).2 hrun⟩
  · exact ⟨hid, hrun⟩

/-- No statement forgets that a run is recorded. -/
theorem Tables.Recorded.effect (h : t.Recorded f) (s : Statement) : (s.effect t).Recorded f := by
  cases s with
  | upsertMaterialization row =>
    show ∃ m ∈ upsert Materialization.pair Materialization.recatalog row t.materializations, _
    unfold upsert
    split
    · exact @recorded_updateWhere f _ (Materialization.recatalog row) (fun _ => ⟨rfl, id⟩) _ h
    · obtain ⟨m, hm, hrest⟩ := h
      exact ⟨m, List.mem_append_left _ hm, hrest⟩
  | claimFunction owner startedAt =>
    exact @recorded_updateWhere f _ (Materialization.claimed owner startedAt) (fun _ => ⟨rfl, id⟩) _ h
  | failFunction error =>
    exact @recorded_updateWhere f _ (Materialization.failed error) (fun _ => ⟨rfl, id⟩) _ h
  | publishFunction run =>
    exact @recorded_updateWhere f _ (Materialization.published run)
      (fun _ => ⟨rfl, fun _ => Option.some_ne_none _⟩) _ h
  | _ => exact h

/-- An inserted run bears the name of a run. -/
def Statement.Named : Statement → Prop
  | .insertRun row => ∃ u, row.id = "run:" ++ u
  | _ => True

theorem publishCatalogStatements_named (a : Artifact) (run : String) (module : ModuleRecord)
    (records : List Record) (endedAt : Time) :
    ∀ s ∈ publishCatalogStatements a run module records endedAt, s.Named := by
  intro s hs
  unfold publishCatalogStatements at hs
  rw [List.mem_append, List.mem_append, List.mem_singleton, List.mem_singleton] at hs
  rcases hs with (rfl | hs) | rfl
  · trivial
  · obtain ⟨f, _, hs⟩ := List.mem_flatMap.mp hs
    simp only [FunctionRecord.statements, List.mem_cons, List.not_mem_nil, or_false] at hs
    rcases hs with rfl | rfl | rfl
    all_goals trivial
  · trivial

theorem Publish.statements_named (p : Publish) (ids : String → Option String) :
    ∀ s ∈ replaceStatements p.target p.entities ++ p.writeStatements ids, s.Named := by
  intro s hs
  unfold replaceStatements writeStatements ownerStatements at hs
  simp only [List.mem_append, List.mem_map, List.mem_cons, List.not_mem_nil, or_false] at hs
  rcases hs with ((rfl | rfl | rfl) | ⟨e, _, rfl⟩) |
    ((((⟨e, _, rfl⟩ | ⟨r, _, rfl⟩) | ⟨q, _, rfl⟩) | rfl | rfl) | ⟨c, _, rfl⟩) | rfl | rfl
  all_goals trivial

/-- A call writes a run of statements. -/
def Writes (db db' : Database) : Prop :=
  ∃ ss, (∀ s ∈ ss, s.Named) ∧ db'.toTables = effects ss db.toTables

theorem Writes.refl (db : Database) : Writes db db := ⟨[], fun _ h => absurd h List.not_mem_nil, rfl⟩

theorem Writes.then {db₁ : Database} (h : Writes db db₁) {ss : List Statement}
    (hs : ∀ s ∈ ss, s.Named) (ht : db'.toTables = effects ss db₁.toTables) : Writes db db' := by
  obtain ⟨ss₁, hs₁, ht₁⟩ := h
  refine ⟨ss₁ ++ ss, fun s hm => (List.mem_append.mp hm).elim (hs₁ s) (hs s), ?_⟩
  rw [effects_append, ht, ht₁]

theorem Writes.claimCatalog {io : Faults} {d : ClaimDraw} {a : Artifact} {index : IndexLevel}
    (h : Irez.claimCatalog io d a index db = .ok db') : Writes db db' := by
  obtain ⟨run, hid, ht⟩ := claimCatalog_effects h
  refine ⟨_, fun s hs => ?_, ht⟩
  simp only [List.mem_cons, List.not_mem_nil, or_false] at hs
  rcases hs with rfl | rfl | rfl
  · trivial
  · exact ⟨d.run, hid⟩
  · trivial

theorem Writes.claimFunction {io : Faults} {d : ClaimDraw} {target : Target}
    (h : Irez.claimFunction io d target db = .ok db') : Writes db db' := by
  obtain ⟨run, hid, ht⟩ := claimFunction_effects h
  refine ⟨_, fun s hs => ?_, ht⟩
  simp only [List.mem_cons, List.not_mem_nil, or_false] at hs
  rcases hs with rfl | rfl
  · trivial
  · exact ⟨d.run, hid⟩

/-- **Every call writes a run of statements.** -/
theorem Attempt.writes {C : Contents} (ha : Attempt C db db') : Writes db db' := by
  cases ha with
  | @store _ a _ _ _ he =>
    refine ⟨[.insertArtifact a], fun s hm => ?_, exec_ok he⟩
    rw [List.mem_singleton.mp hm]
    trivial
  | @mark _ s _ _ _ hs he =>
    refine ⟨[s], fun s' hm => ?_, exec_ok he⟩
    rw [List.mem_singleton.mp hm]
    rcases hs with rfl | rfl
    · trivial
    · trivial
  | catalog _ _ hr =>
    cases refreshCatalog_run hr with
    | refused => exact .refl db
    | abandoned hclaim => exact .claimCatalog hclaim
    | failed hclaim hfail =>
      refine (Writes.claimCatalog hclaim).then (fun s hs => ?_) (transaction_ok hfail)
      simp only [failCatalogStatements, List.mem_cons, List.not_mem_nil, or_false] at hs
      rcases hs with rfl | rfl
      · trivial
      · trivial
    | published hclaim _ _ hpub =>
      exact (Writes.claimCatalog hclaim).then (publishCatalogStatements_named _ _ _ _ _)
        (transaction_ok hpub)
  | materialize _ hm =>
    cases materialize_run hm with
    | answered | refused => exact .refl db
    | abandoned _ hclaim => exact .claimFunction hclaim
    | failed _ hclaim hfail =>
      refine (Writes.claimFunction hclaim).then (fun s hs => ?_) (transaction_ok hfail)
      simp only [failFunctionStatements, List.mem_cons, List.not_mem_nil, or_false] at hs
      rcases hs with rfl | rfl
      · trivial
      · trivial
    | published _ hclaim _ hpub =>
      obtain ⟨_, _, _, _, _, ht⟩ := Publish.exec_ok hpub
      rw [← effects_append] at ht
      exact (Writes.claimFunction hclaim).then (Publish.statements_named _ _) ht

/-- **What every such statement keeps, every history keeps.** -/
theorem History.keeps {C : Contents} {P : Tables → Prop}
    (hP : ∀ s : Statement, s.Named → ∀ t : Tables, P t → P (s.effect t))
    (hrun : Relation.ReflTransGen (Attempt C) db db') (h : P db.toTables) : P db'.toTables := by
  have heffects : ∀ (ss : List Statement), (∀ s ∈ ss, s.Named) → ∀ t : Tables, P t →
      P (effects ss t) := by
    intro ss
    induction ss with
    | nil => exact fun _ t ht => ht
    | cons s ss ih =>
      exact fun hs t ht => ih (fun s' hs' => hs s' (List.mem_cons_of_mem _ hs')) _
        (hP s (hs s List.mem_cons_self) t ht)
  induction hrun with
  | refl => exact h
  | tail _ hstep ih =>
    obtain ⟨ss, hs, ht⟩ := hstep.writes
    rw [ht]
    exact heffects ss hs _ ih

/-- **No call forgets that a run is recorded.** -/
theorem Tables.Recorded.history {C : Contents} (h : db.Recorded f)
    (hrun : Relation.ReflTransGen (Attempt C) db db') : db'.Recorded f :=
  History.keeps (P := fun t => t.Recorded f) (fun s _ _ ht => ht.effect s) hrun h

theorem Tables.Stores.history {C : Contents} {a : Artifact} (h : db.Stores a)
    (hrun : Relation.ReflTransGen (Attempt C) db db') : db'.Stores a :=
  History.keeps (P := fun t => t.Stores a) (fun s _ _ ht => ht.effect s) hrun h

end Recorded

/-- **The function `F` is shown**: its rows are those of the publish `p` of its stream. -/
structure Contents.Shows (C : Contents) (t : Tables) (a : Artifact) (K : Nat) (F : Function)
    (p : Publish) : Prop where
  stores : t.Stores a
  function : (C.module a.id).functions[K]? = some F
  defined : F.isDeclaration = false
  select : selectFunction (functionKey K) 0 (C.module a.id).functions = some (K, F)
  publishes : C.Publishes a K p
  snapshot : t.HoldsSnapshot p
  recorded : t.Recorded p.target.handle

section Shows

variable {C : Contents} {t : Tables} {a : Artifact} {K : Nat} {F : Function} {e : Entity}
  {m : Materialization} {p : Publish} {r : Relation}

/-- A function with a recorded run is shown. -/
theorem Contents.Holds.shows (hh : C.Holds t a K F e m) (hu : C.Unambiguous) {run : String}
    (hrun : m.analysisRunId = some run) : ∃ p, C.Shows t a K F p ∧ p.run = run := by
  have hd : F.isDeclaration = false := by
    cases hd : F.isDeclaration with
    | false => rfl
    | true =>
      rw [(hh.declared hd).2] at hrun
      cases hrun
  obtain ⟨p, hp, hprun, hsnap⟩ := hh.present run hrun
  refine ⟨p, ⟨hh.stores, hh.function, hd, (hu a.id).select hh.function hd, hp, hsnap, m, hh.row, ?_,
    by rw [hrun]; exact Option.some_ne_none _⟩, hprun⟩
  exact hh.handle.trans (hh.cols.1.trans hp.handle.symm)

/-- A function that is recorded and stored is shown. -/
theorem Conforms.shows (h : Conforms C t) (hu : C.Unambiguous) (hc : t.Constraints)
    (ha : t.Stores a) (hrec : t.Recorded (entityId a (functionLocal (functionKey K)))) :
    ∃ F p, C.Shows t a K F p := by
  obtain ⟨m, hm, hid, hrun⟩ := hrec
  obtain ⟨e, he, _, hfn, _⟩ := h.materializations m hm
  have hpair := (h.id_iff hc ha he (colon_mem_functionLocal _)).mp (hfn.symm.trans hid)
  obtain ⟨hart, hlocal⟩ := Prod.mk.inj hpair
  obtain ⟨F, m', hh⟩ := h.holds hc ha he hart hlocal
  obtain rfl := h.row_unique hc hh.row hm (hh.handle.trans hfn.symm)
  obtain ⟨run, hrun⟩ := Option.ne_none_iff_exists'.mp hrun
  obtain ⟨p, hp, _⟩ := hh.shows hu hrun
  exact ⟨F, p, hp⟩

/-- **A row of a function comes from the stream of a function that is shown.** -/
theorem Conforms.shown_of_owner (h : Conforms C t) (hu : C.Unambiguous) {f : String}
    (hf : ¬ t.Bare f) : ∃ a K F p, C.Shows t a K F p ∧ p.target.handle = f := by
  by_cases hfunction : ∃ e ∈ t.entities, e.id = f ∧ e.kind = "function"
  · obtain ⟨e, he, rfl, hk⟩ := hfunction
    obtain ⟨a, K, F, m, hh⟩ := h.functions e he hk
    cases hrun : m.analysisRunId with
    | none => exact absurd (hh.absent hrun) hf
    | some run =>
      obtain ⟨p, hp, _⟩ := hh.shows hu hrun
      exact ⟨a, K, F, p, hp, hp.publishes.handle.trans hh.cols.1.symm⟩
  · exact absurd (h.owners f fun e he hid hk => hfunction ⟨e, he, hid, hk⟩) hf

theorem Conforms.relation_shown (h : Conforms C t) (hu : C.Unambiguous) (hr : r ∈ t.relations) :
    ∃ a K F p, C.Shows t a K F p ∧ ∃ q ∈ p.relations, r = p.snapshotRelation q := by
  obtain ⟨f, hf, _⟩ := h.sound.relations r hr
  have hmem : r ∈ t.relationsOf f := List.mem_filter.mpr ⟨hr, decide_eq_true hf⟩
  obtain ⟨a, K, F, p, hp, rfl⟩ := h.shown_of_owner hu fun hbare => by
    rw [hbare.relations] at hmem
    exact absurd hmem List.not_mem_nil
  rw [hp.snapshot.relations] at hmem
  obtain ⟨q, hq, rfl⟩ := List.mem_map.mp hmem
  exact ⟨a, K, F, p, hp, q, hq, rfl⟩

/-- The relations of a function that is shown are those of its graph. -/
theorem Contents.Shows.relations_eq (h : C.Shows t a K F p) :
    p.relations = relationRecords
      (Selected.graph ⟨C.module a.id, K, F⟩ (C.postDominators F)).records := by
  rw [h.publishes.relations, Contents.stream, functionGraph_eq h.select]

theorem Contents.Shows.entities_eq (h : C.Shows t a K F p) :
    p.entities = entityRecords
      (Selected.graph ⟨C.module a.id, K, F⟩ (C.postDominators F)).records := by
  rw [h.publishes.entities, Contents.stream, functionGraph_eq h.select]

theorem Contents.Shows.entityId_eq (h : C.Shows t a K F p) (l : String) :
    entityId p.target.artifact l = entityId a l := entityId_congr h.publishes.sha l

theorem Contents.Shows.srcId (h : C.Shows t a K F p) (q : RelationRecord) :
    (p.snapshotRelation q).srcId = entityId a q.src := h.entityId_eq q.src

theorem Contents.Shows.dstId (h : C.Shows t a K F p) (q : RelationRecord) :
    (p.snapshotRelation q).dstId = entityId a q.dst := h.entityId_eq q.dst

theorem Contents.Shows.mem_relations (h : C.Shows t a K F p) {q : RelationRecord}
    (hq : q ∈ p.relations) : p.snapshotRelation q ∈ t.relations := by
  have hm : p.snapshotRelation q ∈ t.relationsOf p.target.handle := by
    rw [h.snapshot.relations]
    exact List.mem_map_of_mem hq
  exact (List.mem_filter.mp hm).1

/-- An instruction key names its function and its number. -/
theorem instructionKey_inj {M M' : Module} {K K' i i' : Nat} {F F' : Function}
    (h : Selected.instructionKey ⟨M, K, F⟩ i = Selected.instructionKey ⟨M', K', F'⟩ i') :
    K = K' ∧ i = i' := by
  have hs := Selected.instructionKey_scoped ⟨M, K, F⟩ i
  rw [h] at hs
  obtain rfl := functionKey_inj (ScopedTo.inj (colon_not_mem_functionKey K)
    (colon_not_mem_functionKey K') hs (Selected.instructionKey_scoped ⟨M', K', F'⟩ i'))
  exact ⟨rfl, Selected.instructionKey_inj ⟨M, K, F⟩ h⟩

end Shows

/-! ## 8. One module behind every file -/

/-- A tree with the root right above every block; LLVM's where a function has one block. -/
def flatTree (n : Nat) : PostDominatorTree where
  contains i := decide (i < n)
  dominates a b := decide (a = b)
  getIDom
    | .block _ => some .root
    | .root => none
  level
    | .root => 0
    | .block _ => 1
  level_lt := by
    intro n m h
    match n, h with
    | .block _, h =>
      cases h
      exact Nat.zero_lt_one
    | .root, h => cases h

theorem flatTree_over (F : Function) : (flatTree F.blocks.length).Over F where
  contains _ hi := of_decide_eq_true hi
  getIDom n i h := by
    match n, h with
    | .block _, h => cases h
    | .root, h => cases h

/-- Every file holds the module. -/
def Contents.single (M : Module) : Contents where
  module _ := M
  postDominators F := flatTree F.blocks.length
  graphs := flatTree_over

def singleAdapter (M : Module) : Adapter :=
  ⟨fun _ => .ok (catalog M), fun _ key => .ok ((Contents.single M).stream "" key)⟩

theorem single_answered (M : Module) (t : Tables) :
    (Contents.single M).Answered t (singleAdapter M) where
  catalogs _ _ _ h := (Except.ok.inj (accept_ok h).1).symm
  graphs _ _ _ h := (Except.ok.inj (accept_ok h).1).symm

/-- The sample artifact with the module catalogued. -/
def singleCatalogued (M : Module) : Database :=
  (refreshCatalog Sample.environment (singleAdapter M).catalog ⟨Sample.claimDraw "c" "c" 1, 2, 2⟩
    Sample.artifact .catalog Sample.database).1

/-- The catalog of the sample artifact, where every file holds the module. -/
theorem singleCatalogued_attempt {C : Contents} {M : Module} (hM : ∀ id, C.module id = M) :
    Attempt C Sample.database (singleCatalogued M) := by
  have hcall : refreshCatalog Sample.environment (singleAdapter M).catalog
      ⟨Sample.claimDraw "c" "c" 1, 2, 2⟩ Sample.artifact .catalog Sample.database =
        (singleCatalogued M, _) := rfl
  refine .catalog ⟨Sample.artifact, List.mem_singleton.mpr rfl, rfl, rfl⟩ (fun records h => ?_) hcall
  rw [hM]
  exact (Except.ok.inj (accept_ok h).1).symm

theorem catalogued_history {C : Contents} {M : Module} (hM : ∀ id, C.module id = M) :
    History C (singleCatalogued M) := by
  have h₀ : Collision.empty.Fresh := ⟨rfl, rfl, rfl, rfl, rfl, rfl, rfl⟩
  have hstore : Attempt C Collision.empty Sample.database :=
    @Attempt.store _ noFaults Sample.artifact _ _ ⟨by decide, by decide⟩ rfl
  exact ⟨_, h₀, (Relation.ReflTransGen.single hstore).tail (singleCatalogued_attempt hM)⟩

theorem singleCatalogued_history (M : Module) : History (Contents.single M) (singleCatalogued M) :=
  catalogued_history fun _ => rfl

theorem singleCatalogued_stores (M : Module) : (singleCatalogued M).Stores Sample.artifact := by
  have hstored : Sample.database.Stores Sample.artifact :=
    ⟨Sample.artifact, List.mem_singleton.mpr rfl, rfl, rfl⟩
  exact hstored.history (C := Contents.single M) (.single (singleCatalogued_attempt fun _ => rfl))

end Irez
