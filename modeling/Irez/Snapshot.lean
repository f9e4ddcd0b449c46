/-
  File:      Irez/Snapshot.lean
  Subject:   What a committed publish leaves: it replaces the snapshot of one function
             and touches no other function's rows.

  * `Publish.Own` -- the stream keeps to the territory of its function;
  * `replaceStatements_effect`, `writeStatements_effect` -- the tables after the two
    halves of the transaction, in closed form;
  * `mem_published` -- every entity row after the publish is a row of the stream, a shared
    row the stream names, or an old row of nobody or of another function;
  * `SnapshotReplaced`, `snapshotReplaced` -- the tables after against those before;
  * `Sound.publish` -- the invariant is kept.
-/
import Irez.Ownership

open Irez.Basis

namespace Irez

/-! ## 1. Streams that keep to a territory -/

/-- The stream of a publish declares function keys, global keys and interior keys of its
    own function, joins no entity of another one, and places its own instructions. -/
structure Publish.Own (T : Territory) (p : Publish) : Prop where
  entities : ∀ e ∈ p.entities,
    (e.kind = "function" ∧ ∃ key, e.localKey = functionLocal key) ∨
    (e.kind = "global" ∧ GlobalKey e.localKey) ∨
    (e.kind ≠ "function" ∧ e.kind ≠ "global" ∧ T.owns p.target.key e.localKey)
  endpoints : ∀ r ∈ p.relations, ∀ l, l = r.src ∨ l = r.dst → ∀ key, T.owns key l →
    key = p.target.key
  sources : ∀ s ∈ p.sources, ∃ e ∈ p.entities, e.interior = true ∧ e.localKey = s.entity

/-- The handle of the target is the handle of its key. -/
def Target.Named (target : Target) : Prop :=
  target.handle = entityId target.artifact (functionLocal target.key)

theorem Target.key_of_functionLocal {target : Target} {key : String}
    (h : target.function.localKey = functionLocal key) : target.key = key := by
  unfold Target.key
  rw [h, if_pos (colon_mem_functionLocal key), tailFields_functionLocal]

/-- A function read from sound tables is named by its key. -/
theorem Sound.enter {T : Territory} {t : Tables} (h : Sound T t) (hc : t.Constraints)
    {handle : String} {refresh : Bool} {target : Target}
    (hent : Irez.enter t handle refresh = .ok (.analyse target)) :
    t.Stores target.artifact ∧ target.Named := by
  obtain ⟨hfn, _, hart⟩ := enter_analyse hent
  obtain ⟨hmem, hkind⟩ := Option.filter_eq_some_iff.mp hfn
  have hkind : target.function.kind = "function" := of_decide_eq_true hkind
  have haid : target.artifact.id = target.function.artifactId := key_of_lookup hart
  obtain ⟨hid, hp⟩ := h.id_of_entity hc (mem_of_lookup hart) (mem_of_lookup hmem) haid.symm
  refine ⟨⟨_, mem_of_lookup hart, rfl, rfl⟩, ?_⟩
  rcases hp with ⟨key, _, hl, _⟩ | ⟨hk, _, _⟩ | ⟨_, hf, _, _, _⟩
  · unfold Target.Named Target.handle
    rw [Target.key_of_functionLocal hl, hid, hl]
  · rw [hkind] at hk
    exact absurd hk (by decide)
  · exact absurd hkind hf

/-! ## 2. The two halves in closed form -/

namespace Publish

variable (p : Publish)

/-- The rows the stream upserts. -/
def rows : List Entity := p.entities.map (entityRow p.target.artifact)

/-- The entity rows left by the deletes. -/
def keptEntities (t : Tables) : List Entity :=
  deleteWhere (fun e => e.functionId = some p.target.handle && e.id ≠ p.target.handle) t.entities

theorem effects_upsertEntities (artifact : Artifact) (es : List EntityRecord) (t : Tables) :
    effects (es.map fun e => .upsertEntity (entityRow artifact e)) t =
      { t with
        entities := upsertAll Entity.localPair Entity.restructure (es.map (entityRow artifact))
          t.entities } := by
  induction es generalizing t with
  | nil => rfl
  | cons e es ih =>
    rw [List.map_cons, effects_cons, ih]
    rfl

/-- The tables after the deletes and the upserts. -/
theorem replaceStatements_effect (t : Tables) :
    effects (replaceStatements p.target p.entities) t =
      { t with
        relations := deleteWhere (fun r => r.functionId = some p.target.handle ||
          r.srcId ∈ t.owned p.target.handle || r.dstId ∈ t.owned p.target.handle) t.relations
        sourceLocations :=
          deleteWhere (fun s => s.entityId ∈ t.owned p.target.handle) t.sourceLocations
        entities := upsertAll Entity.localPair Entity.restructure p.rows (p.keptEntities t) } := by
  unfold replaceStatements
  rw [effects_append, effects_upsertEntities]
  rfl

variable (ids : String → Option String)

/-- The ownership updates, one for each interior entity of the stream. -/
def owners : List (String × (Entity → Entity)) :=
  (p.entities.filter (·.interior)).map fun e => ((ids e.localKey).getD "",
    fun x => { x with
      functionId := some (p.functionId ids), blockId := blockOf ids p.relations e })

theorem effects_owners (es : List EntityRecord) (t : Tables) :
    effects (es.map fun e => .setOwner (p.functionId ids) (blockOf ids p.relations e)
      ((ids e.localKey).getD "")) t =
      { t with
        entities := updateAll Entity.id (es.map fun e => ((ids e.localKey).getD "",
          fun x => { x with
            functionId := some (p.functionId ids), blockId := blockOf ids p.relations e }))
          t.entities } := by
  induction es generalizing t with
  | nil => rfl
  | cons e es ih =>
    rw [List.map_cons, effects_cons, ih]
    rfl

theorem effects_insertRelations (rs : List Relation) (t : Tables) :
    effects (rs.map .insertRelation) t = { t with relations := t.relations ++ rs } := by
  induction rs generalizing t with
  | nil => simp
  | cons r rs ih =>
    rw [List.map_cons, effects_cons, ih]
    simp [Statement.effect]

theorem effects_insertSources (ss : List SourceLocation) (t : Tables) :
    effects (ss.map .insertSourceLocation) t =
      { t with sourceLocations := t.sourceLocations ++ ss } := by
  induction ss generalizing t with
  | nil => simp
  | cons s ss ih =>
    rw [List.map_cons, effects_cons, ih]
    simp [Statement.effect]

theorem effects_insertCapabilities (cs : List Capability) (t : Tables) :
    effects (cs.map .insertCapability) t = { t with capabilities := t.capabilities ++ cs } := by
  induction cs generalizing t with
  | nil => simp
  | cons c cs ih =>
    rw [List.map_cons, effects_cons, ih]
    simp [Statement.effect]

/-- `SET materialization='structure_ready'`. -/
def ready (e : Entity) : Entity := { e with materialization := .structureReady }

/-- The tables after the writing half. -/
theorem writeStatements_effect (t : Tables) :
    effects (p.writeStatements ids) t =
      { t with
        entities := updateWhere (·.id = p.functionId ids) ready
          (updateAll Entity.id (p.owners ids) t.entities)
        relations := t.relations ++ p.relations.map (p.relationRow ids)
        sourceLocations := t.sourceLocations ++ p.sources.map (p.sourceRow ids)
        capabilities := deleteWhere (·.functionId = p.functionId ids) t.capabilities ++
          kMaterializationCapabilities.map (p.capabilityRow ids)
        materializations :=
          updateWhere (fun m => m.functionId = p.functionId ids && m.claimOwner = some p.owner)
            (Materialization.published p.run) t.materializations
        runs := updateWhere (·.id = p.run) (Run.ended .success p.draw.endedAt none) t.runs } := by
  have hrel : p.relations.map (fun r => Statement.insertRelation (p.relationRow ids r)) =
      (p.relations.map (p.relationRow ids)).map .insertRelation := by
    rw [List.map_map]
    rfl
  have hsrc : p.sources.map (fun s => Statement.insertSourceLocation (p.sourceRow ids s)) =
      (p.sources.map (p.sourceRow ids)).map .insertSourceLocation := by
    rw [List.map_map]
    rfl
  have hcap : kMaterializationCapabilities.map
      (fun c => Statement.insertCapability (p.capabilityRow ids c)) =
      (kMaterializationCapabilities.map (p.capabilityRow ids)).map .insertCapability := by
    rw [List.map_map]
    rfl
  unfold writeStatements ownerStatements
  rw [hrel, hsrc, hcap]
  simp only [effects_append, effects_owners, effects_insertRelations, effects_insertSources,
    effects_cons, effects_nil, Statement.effect, effects_insertCapabilities]
  rfl

end Publish

/-! ## 3. The rows after the first half -/

/-- What a publish needs of the tables it runs on. -/
structure Publish.Fits (T : Territory) (t : Tables) (p : Publish) : Prop where
  sound : Sound T t
  constraints : t.Constraints
  stores : t.Stores p.target.artifact
  named : p.target.Named
  own : p.Own T
  distinct : (p.entities.map (·.localKey)).Nodup

namespace Publish

/-- The tables after the deletes and the upserts. -/
def replaced (p : Publish) (t : Tables) : Tables :=
  effects (replaceStatements p.target p.entities) t

/-- A row after the first half: a new row of the function, a row the stream shares with
    other functions, or an old row the stream does not name. -/
inductive Upserted (p : Publish) (t : Tables) (r : Entity) : Prop where
  | fresh {e : EntityRecord} (he : e ∈ p.entities) (hi : e.interior = true)
      (hr : r = entityRow p.target.artifact e)
  | shared {e : EntityRecord} (he : e ∈ p.entities) (hi : e.interior = false)
      (haid : r.artifactId = p.target.artifact.id)
      (hid : r.id = entityId p.target.artifact e.localKey) (hl : r.localKey = e.localKey)
      (hk : (r.kind = "function" ∧ ∃ key, r.localKey = functionLocal key) ∨
        (r.kind = "global" ∧ GlobalKey r.localKey)) (ho : r.functionId = none)
  | kept (hr : r ∈ t.entities) (ho : r.functionId ≠ some p.target.handle)
      (hfree : ∀ e ∈ p.entities, ¬ (r.artifactId = p.target.artifact.id ∧ r.localKey = e.localKey))

section Fits

variable {T : Territory} {t : Tables} {p : Publish}

theorem Own.colon_mem (h : p.Own T) {e : EntityRecord} (he : e ∈ p.entities) :
    ':' ∈ e.localKey.toList := by
  rcases h.entities e he with ⟨_, key, hl⟩ | ⟨_, hl⟩ | ⟨_, _, hl⟩
  · rw [hl]
    exact colon_mem_functionLocal key
  · exact hl.colon_mem
  · exact T.colon hl

theorem Own.interior_iff (h : p.Own T) {e : EntityRecord} (he : e ∈ p.entities) :
    e.interior = true ↔ T.owns p.target.key e.localKey := by
  unfold EntityRecord.interior
  rcases h.entities e he with ⟨hk, key, hl⟩ | ⟨hk, hl⟩ | ⟨hf, hg, hl⟩
  · refine ⟨fun hi => ?_, fun hown => absurd hl (Territory.ne_functionLocal hown key)⟩
    simp [hk] at hi
  · refine ⟨fun hi => ?_, fun hown => absurd hl (Territory.not_global hown)⟩
    simp [hk] at hi
  · exact ⟨fun _ => hl, fun _ => by simp [hf, hg]⟩

/-- The row the target's artifact was read from. -/
theorem Fits.artifact (h : p.Fits T t) : ∃ a ∈ t.artifacts, a.id = p.target.artifact.id ∧
    ∀ l, entityId a l = entityId p.target.artifact l := by
  obtain ⟨a, ha, hid, hsha⟩ := h.stores
  exact ⟨a, ha, hid, entityId_congr hsha⟩

theorem Fits.owner_iff (h : p.Fits T t) {e : Entity} (he : e ∈ t.entities) (key : String) :
    e.functionId = some (entityId p.target.artifact (functionLocal key)) ↔
      e.artifactId = p.target.artifact.id ∧ T.owns key e.localKey := by
  obtain ⟨a, ha, hid, heq⟩ := h.artifact
  rw [← heq, h.sound.owner_iff h.constraints ha he, hid]

theorem Fits.entity_of_id (h : p.Fits T t) {l : String} (hl : ':' ∈ l.toList) {e : Entity}
    (he : e ∈ t.entities) (hid : e.id = entityId p.target.artifact l) :
    e.artifactId = p.target.artifact.id ∧ e.localKey = l := by
  obtain ⟨a, ha, haid, heq⟩ := h.artifact
  rw [← heq] at hid
  obtain ⟨h1, h2, _⟩ := h.sound.entity_of_id h.constraints ha hl he hid
  exact ⟨h1.trans haid, h2⟩

theorem Fits.id_of_entity (h : p.Fits T t) {e : Entity} (he : e ∈ t.entities)
    (haid : e.artifactId = p.target.artifact.id) :
    e.id = entityId p.target.artifact e.localKey := by
  obtain ⟨a, ha, haid', heq⟩ := h.artifact
  rw [← heq]
  exact (h.sound.id_of_entity h.constraints ha he (haid.trans haid'.symm)).1

/-- The function's own row has no owner. -/
theorem Fits.handle_free (h : p.Fits T t) {e : Entity} (he : e ∈ t.entities)
    (hid : e.id = p.target.handle) : e.functionId = none := by
  obtain ⟨a, ha, _, heq⟩ := h.artifact
  rw [h.named, ← heq] at hid
  obtain ⟨_, hl, hp⟩ := h.sound.entity_of_id h.constraints ha (colon_mem_functionLocal _) he hid
  exact (hp.of_functionLocal hl).2

theorem rows_keyed (h : (p.entities.map (·.localKey)).Nodup) : Keyed Entity.localPair p.rows := by
  unfold Keyed rows
  rw [List.map_map]
  have hmap : p.entities.map (Entity.localPair ∘ entityRow p.target.artifact) =
      (p.entities.map (·.localKey)).map fun l => (p.target.artifact.id, l) := by
    rw [List.map_map]
    rfl
  rw [hmap]
  exact h.map fun _ _ he => (Prod.mk.inj he).2

/-- No row in the function's territory survives the deletes. -/
theorem Fits.kept_free (h : p.Fits T t) {r : Entity} (hr : r ∈ p.keptEntities t)
    (haid : r.artifactId = p.target.artifact.id) : ¬ T.owns p.target.key r.localKey := by
  intro hown
  obtain ⟨hrt, hdel⟩ := mem_deleteWhere.mp hr
  have hf := (h.owner_iff hrt p.target.key).mpr ⟨haid, hown⟩
  rw [← h.named] at hf
  have hid : r.id = p.target.handle := by simpa [hf] using hdel
  rw [h.handle_free hrt hid] at hf
  cases hf

/-- **The rows after the first half.** -/
theorem Fits.mem_replaced (h : p.Fits T t) {r : Entity} :
    r ∈ (p.replaced t).entities ↔
      (∃ e ∈ p.entities, (p.target.artifact.id, e.localKey) = r.localPair ∧
        r = (lookup Entity.localPair r.localPair (p.keptEntities t)).elim
          (entityRow p.target.artifact e)
          (Entity.restructure (entityRow p.target.artifact e))) ∨
      (r ∈ p.keptEntities t ∧ ∀ e ∈ p.entities, (p.target.artifact.id, e.localKey) ≠ r.localPair) := by
  have hlocal : Keyed Entity.localPair t.entities := h.constraints.entityLocal
  have hkeyed : Keyed Entity.localPair (p.keptEntities t) := hlocal.deleteWhere _
  unfold replaced
  rw [replaceStatements_effect]
  have hpair : ∀ n y, Entity.localPair (Entity.restructure n y) = Entity.localPair y :=
    fun _ _ => rfl
  refine (mem_upsertAll hkeyed hpair (rows_keyed h.distinct)).trans ?_
  unfold rows
  constructor
  · intro hm
    rcases hm with ⟨new, hnew, hkey, hr⟩ | ⟨hr, hne⟩
    · obtain ⟨e, he, rfl⟩ := List.mem_map.mp hnew
      exact Or.inl ⟨e, he, hkey, hr⟩
    · exact Or.inr ⟨hr, fun e he => hne _ (List.mem_map_of_mem he)⟩
  · intro hm
    rcases hm with ⟨e, he, hkey, hr⟩ | ⟨hr, hne⟩
    · exact Or.inl ⟨_, List.mem_map_of_mem he, hkey, hr⟩
    · refine Or.inr ⟨hr, fun new hnew => ?_⟩
      obtain ⟨e, he, rfl⟩ := List.mem_map.mp hnew
      exact hne e he

theorem Fits.upserted (h : p.Fits T t) {r : Entity} (hr : r ∈ (p.replaced t).entities) :
    p.Upserted t r := by
  rcases h.mem_replaced.mp hr with ⟨e, he, hkey, hrow⟩ | ⟨hkept, hne⟩
  · obtain ⟨haid, hl⟩ := Prod.mk.inj hkey
    cases hlook : lookup Entity.localPair r.localPair (p.keptEntities t) with
    | none =>
      rw [hlook] at hrow
      have hrow : r = entityRow p.target.artifact e := hrow
      cases hi : e.interior with
      | true => exact .fresh he hi hrow
      | false =>
        refine .shared he hi haid.symm (by rw [hrow]; rfl) hl.symm ?_ (by rw [hrow]; rfl)
        rw [hrow]
        rcases h.own.entities e he with hf | hg | ⟨_, _, hown⟩
        · exact Or.inl hf
        · exact Or.inr hg
        · rw [(h.own.interior_iff he).mpr hown] at hi
          cases hi
    | some y =>
      rw [hlook] at hrow
      have hrow : r = Entity.restructure (entityRow p.target.artifact e) y := hrow
      have hy := mem_of_lookup hlook
      have hpair : y.localPair = r.localPair := key_of_lookup hlook
      obtain ⟨hyaid, hyl⟩ := Prod.mk.inj (hpair.trans hkey.symm)
      have hyt := (mem_deleteWhere.mp hy).1
      have hfree := h.kept_free hy hyaid
      rw [hyl] at hfree
      obtain ⟨a, ha, haid', heq⟩ := h.artifact
      obtain ⟨hyid, hp⟩ := h.sound.id_of_entity h.constraints ha hyt (hyaid.trans haid'.symm)
      have hi : e.interior = false := by
        cases hi : e.interior with
        | false => rfl
        | true => exact absurd ((h.own.interior_iff he).mp hi) hfree
      refine .shared he hi haid.symm ?_ hl.symm ?_ ?_
      · rw [hrow]
        show y.id = _
        rw [hyid, heq, hyl]
      · rw [hrow]
        show (y.kind = "function" ∧ ∃ key, y.localKey = functionLocal key) ∨
          (y.kind = "global" ∧ GlobalKey y.localKey)
        rcases h.own.entities e he with ⟨_, key, hf⟩ | ⟨_, hg⟩ | ⟨_, _, hown⟩
        · exact Or.inl ⟨(hp.of_functionLocal (hyl.trans hf)).1, key, hyl.trans hf⟩
        · rw [← hyl] at hg
          exact Or.inr ⟨(hp.of_global hg).1, hg⟩
        · exact absurd hown hfree
      · rw [hrow]
        show y.functionId = none
        rcases h.own.entities e he with ⟨_, key, hf⟩ | ⟨_, hg⟩ | ⟨_, _, hown⟩
        · exact (hp.of_functionLocal (hyl.trans hf)).2
        · exact (hp.of_global (hyl ▸ hg)).2
        · exact absurd hown hfree
  · obtain ⟨hrt, hdel⟩ := mem_deleteWhere.mp hkept
    refine .kept hrt (fun ho => ?_) fun e he hc => hne e he (Prod.ext hc.1.symm hc.2.symm)
    have hid : r.id = p.target.handle := by simpa [ho] using hdel
    rw [h.handle_free hrt hid] at ho
    cases ho

/-! ## 4. Names resolved -/

/-- **`local_to_id` answers with handles.** -/
theorem Fits.ids_eq (h : p.Fits T t) {l i : String} (hi : p.localIds (p.replaced t) l = some i) :
    i = entityId p.target.artifact l := by
  unfold localIds localToId at hi
  split at hi
  · exact (Option.some.inj hi).symm
  · split at hi
    · obtain ⟨r, hr, rfl⟩ := Option.map_eq_some_iff.mp hi
      have hmem : r ∈ (p.replaced t).entities := mem_of_lookup hr
      have hr : lookup Entity.localPair (p.target.artifact.id, l) (p.replaced t).entities =
          some r := hr
      have hpair : r.localPair = (p.target.artifact.id, l) := key_of_lookup hr
      obtain ⟨haid, hl⟩ := Prod.mk.inj hpair
      rcases h.upserted hmem with ⟨he, _, hrow⟩ | ⟨he, _, _, hid, hl', _, _⟩ | ⟨hrt, _, _⟩
      · rw [hrow] at hl ⊢
        exact congrArg (entityId p.target.artifact) hl
      · rw [hid, ← hl', hl]
      · rw [h.id_of_entity hrt haid, hl]
    · cases hi

theorem ids_declared (p : Publish) (t : Tables) {e : EntityRecord} (he : e ∈ p.entities) :
    p.localIds t e.localKey = some (entityId p.target.artifact e.localKey) := by
  unfold localIds localToId
  rw [if_pos (List.mem_map_of_mem he)]

/-- `function_id` is the target's handle. -/
theorem Fits.functionId_eq (h : p.Fits T t) :
    p.functionId (p.localIds (p.replaced t)) = p.target.handle := by
  unfold functionId
  cases hi : p.localIds (p.replaced t) ("function:" ++ p.target.key) with
  | none => rfl
  | some i => exact (h.ids_eq hi).trans h.named.symm

theorem checkEndpoints_ok {ids : String → Option String} {what : String} {locals : List String}
    (h : checkEndpoints ids what locals = .ok ()) : ∀ l ∈ locals, ∃ i, ids l = some i := by
  unfold checkEndpoints at h
  split at h
  · cases h
  · rename_i hnone
    intro l hl
    have := List.find?_eq_none.mp hnone l hl
    cases hi : ids l with
    | none => simp [hi] at this
    | some i => exact ⟨i, rfl⟩

/-- The stream passed the endpoint checks. -/
structure Resolved (p : Publish) (t : Tables) : Prop where
  relations : ∀ r ∈ p.relations, (∃ i, p.localIds (p.replaced t) r.src = some i) ∧
    ∃ i, p.localIds (p.replaced t) r.dst = some i
  sources : ∀ s ∈ p.sources, ∃ i, p.localIds (p.replaced t) s.entity = some i

theorem resolved_of_checks
    (hr : checkEndpoints (p.localIds (p.replaced t)) "relation"
      (p.relations.flatMap fun r => [r.src, r.dst]) = .ok ())
    (hs : checkEndpoints (p.localIds (p.replaced t)) "source" (p.sources.map (·.entity)) = .ok ()) :
    p.Resolved t where
  relations r hrm := by
    have hall := checkEndpoints_ok hr
    exact ⟨hall r.src (List.mem_flatMap.mpr ⟨r, hrm, List.mem_cons_self⟩),
      hall r.dst (List.mem_flatMap.mpr ⟨r, hrm, by simp⟩)⟩
  sources s hsm := checkEndpoints_ok hs s.entity (List.mem_map_of_mem hsm)

/-! ## 5. The rows of a snapshot -/

/-- The block of an instruction: the source of the first `llvm.contains` relation to it
    from a block. -/
def blockId (p : Publish) (e : EntityRecord) : Option String :=
  if e.kind = "instruction" then
    (p.relations.find? fun r =>
      r.kind = "llvm.contains" && r.dst = e.localKey && startsWith "block:" r.src).map
      fun r => entityId p.target.artifact r.src
  else none

/-- The row of an entity inside the function. -/
def ownedRow (p : Publish) (e : EntityRecord) : Entity :=
  { entityRow p.target.artifact e with
    functionId := some p.target.handle, blockId := p.blockId e }

/-- The row of a relation of the function. -/
def snapshotRelation (p : Publish) (r : RelationRecord) : Relation :=
  p.relationRow (fun l => some (entityId p.target.artifact l)) r

/-- The row of a source location of the function. -/
def snapshotSource (p : Publish) (s : SourceRecord) : SourceLocation :=
  p.sourceRow (fun l => some (entityId p.target.artifact l)) s

/-- The row of a capability of the function. -/
def snapshotCapability (p : Publish) (c : String × String) : Capability :=
  p.capabilityRow (fun l => some (entityId p.target.artifact l)) c

theorem Fits.blockOf_eq (h : p.Fits T t) (hr : p.Resolved t) (e : EntityRecord) :
    blockOf (p.localIds (p.replaced t)) p.relations e = p.blockId e := by
  unfold blockOf blockId
  split
  · cases hf : p.relations.find? fun r =>
      r.kind = "llvm.contains" && r.dst = e.localKey && startsWith "block:" r.src with
    | none => rfl
    | some r =>
      obtain ⟨⟨i, hi⟩, _⟩ := hr.relations r (List.mem_of_find?_eq_some hf)
      show p.localIds (p.replaced t) r.src = some _
      rw [hi, h.ids_eq hi]
  · rfl

theorem Fits.named_functionId (h : p.Fits T t) :
    p.functionId (fun l => some (entityId p.target.artifact l)) = p.target.handle :=
  h.named.symm

theorem Fits.relationRow_eq (h : p.Fits T t) (hr : p.Resolved t) {r : RelationRecord}
    (hm : r ∈ p.relations) :
    p.relationRow (p.localIds (p.replaced t)) r = p.snapshotRelation r := by
  obtain ⟨⟨i, hi⟩, j, hj⟩ := hr.relations r hm
  unfold snapshotRelation relationRow
  rw [h.functionId_eq, h.named_functionId, hi, hj, h.ids_eq hi, h.ids_eq hj]

theorem Fits.sourceRow_eq (h : p.Fits T t) (hr : p.Resolved t) {s : SourceRecord}
    (hm : s ∈ p.sources) : p.sourceRow (p.localIds (p.replaced t)) s = p.snapshotSource s := by
  obtain ⟨i, hi⟩ := hr.sources s hm
  unfold snapshotSource sourceRow
  rw [hi, h.ids_eq hi]

theorem Fits.capabilityRow_eq (h : p.Fits T t) (c : String × String) :
    p.capabilityRow (p.localIds (p.replaced t)) c = p.snapshotCapability c := by
  unfold snapshotCapability capabilityRow
  rw [h.functionId_eq, h.named_functionId]

/-! ## 6. The entities after the publish -/

/-- The ownership updates on one row. -/
def claimRow (p : Publish) (r : Entity) : Entity :=
  (lookup (fun e : EntityRecord => entityId p.target.artifact e.localKey) r.id
    (p.entities.filter (·.interior))).elim r fun e =>
      { r with functionId := some p.target.handle, blockId := p.blockId e }

theorem Fits.interior_keyed (h : p.Fits T t) :
    Keyed (fun e : EntityRecord => entityId p.target.artifact e.localKey)
      (p.entities.filter (·.interior)) := by
  unfold Keyed
  refine List.Nodup.map_on (fun e he e' he' heq => ?_)
    ((List.Nodup.of_map _ h.distinct).filter _)
  have hm := (List.mem_filter.mp he).1
  have hm' := (List.mem_filter.mp he').1
  exact List.inj_on_of_nodup_map h.distinct hm hm'
    (entityId_right_inj (h.own.colon_mem hm) (h.own.colon_mem hm') heq)

theorem Fits.updateAll_owners (h : p.Fits T t) (hr : p.Resolved t) (rows : List Entity) :
    updateAll Entity.id (p.owners (p.localIds (p.replaced t))) rows = rows.map p.claimRow := by
  have howners : p.owners (p.localIds (p.replaced t)) =
      (p.entities.filter (·.interior)).map fun e => (entityId p.target.artifact e.localKey,
        fun x : Entity => { x with
          functionId := some p.target.handle, blockId := p.blockId e }) := by
    unfold owners
    refine List.map_congr_left fun e he => ?_
    rw [ids_declared p _ (List.mem_filter.mp he).1, h.functionId_eq, h.blockOf_eq hr e]
    rfl
  have hkeep : ∀ u ∈ p.owners (p.localIds (p.replaced t)), ∀ r, (u.2 r).id = r.id := by
    rw [howners]
    intro u hu r
    obtain ⟨e, _, rfl⟩ := List.mem_map.mp hu
    rfl
  have hnodup : ((p.owners (p.localIds (p.replaced t))).map (·.1)).Nodup := by
    rw [howners, List.map_map]
    exact h.interior_keyed
  rw [updateAll_eq_map hkeep hnodup, howners]
  refine List.map_congr_left fun r _ => ?_
  rw [List.find?_map]
  unfold claimRow lookup
  simp only [Function.comp_def]
  cases (p.entities.filter (·.interior)).find?
      fun e => entityId p.target.artifact e.localKey = r.id with
  | none => rfl
  | some e => rfl

theorem Fits.claimRow_fresh (h : p.Fits T t) {e : EntityRecord} (he : e ∈ p.entities)
    (hi : e.interior = true) : p.claimRow (entityRow p.target.artifact e) = p.ownedRow e := by
  have hl : lookup (fun e : EntityRecord => entityId p.target.artifact e.localKey)
      (entityRow p.target.artifact e).id (p.entities.filter (·.interior)) = some e :=
    (lookup_eq_some_iff h.interior_keyed).mpr ⟨List.mem_filter.mpr ⟨he, hi⟩, rfl⟩
  unfold claimRow
  rw [hl]
  rfl

/-- A row the stream does not place in the function is left alone. -/
theorem Fits.claimRow_other (h : p.Fits T t) {r : Entity} (hr : p.Upserted t r)
    (hf : ∀ e ∈ p.entities, e.interior = true → r ≠ entityRow p.target.artifact e) :
    p.claimRow r = r := by
  have hl : lookup (fun e : EntityRecord => entityId p.target.artifact e.localKey) r.id
      (p.entities.filter (·.interior)) = none := by
    refine lookup_eq_none_iff.mpr fun e he heq => ?_
    obtain ⟨he, hi⟩ := List.mem_filter.mp he
    rcases hr with ⟨he', hi', hrow⟩ | ⟨he', hi', _, hid, _, _, _⟩ | ⟨hrt, _, hfree⟩
    · exact hf _ he' hi' hrow
    · have hkey := entityId_right_inj (h.own.colon_mem he) (h.own.colon_mem he')
        (heq.trans hid)
      rw [List.inj_on_of_nodup_map h.distinct he he' hkey] at hi
      rw [hi] at hi'
      cases hi'
    · exact hfree e he (h.entity_of_id (h.own.colon_mem he) hrt heq.symm)
  unfold claimRow
  rw [hl]
  rfl

/-- The tables after the publish. -/
def published (p : Publish) (t : Tables) : Tables :=
  effects (p.writeStatements (p.localIds (p.replaced t))) (p.replaced t)

/-- **The tables after the publish**, in closed form. -/
theorem Fits.published_eq (h : p.Fits T t) (hr : p.Resolved t) :
    p.published t =
      { t with
        entities := updateWhere (·.id = p.target.handle) ready
          ((p.replaced t).entities.map p.claimRow)
        relations := deleteWhere (fun r => r.functionId = some p.target.handle ||
            r.srcId ∈ t.owned p.target.handle || r.dstId ∈ t.owned p.target.handle) t.relations ++
          p.relations.map p.snapshotRelation
        sourceLocations :=
          deleteWhere (fun s => s.entityId ∈ t.owned p.target.handle) t.sourceLocations ++
            p.sources.map p.snapshotSource
        capabilities := deleteWhere (·.functionId = p.target.handle) t.capabilities ++
          kMaterializationCapabilities.map p.snapshotCapability
        materializations :=
          updateWhere (fun m => m.functionId = p.target.handle && m.claimOwner = some p.owner)
            (Materialization.published p.run) t.materializations
        runs := updateWhere (·.id = p.run) (Run.ended .success p.draw.endedAt none) t.runs } := by
  have hrel : p.relations.map (p.relationRow (p.localIds (p.replaced t))) =
      p.relations.map p.snapshotRelation :=
    List.map_congr_left fun r hm => h.relationRow_eq hr hm
  have hsrc : p.sources.map (p.sourceRow (p.localIds (p.replaced t))) =
      p.sources.map p.snapshotSource :=
    List.map_congr_left fun s hm => h.sourceRow_eq hr hm
  have hcap : kMaterializationCapabilities.map (p.capabilityRow (p.localIds (p.replaced t))) =
      kMaterializationCapabilities.map p.snapshotCapability :=
    List.map_congr_left fun c _ => h.capabilityRow_eq c
  unfold published
  rw [writeStatements_effect, h.updateAll_owners hr, hrel, hsrc, hcap, h.functionId_eq]
  have ht : p.replaced t = _ := p.replaceStatements_effect t
  rw [ht]

/-- An entity row after the publish: a row of the snapshot, a row the stream shares with
    other functions, or an old row, where the function's own row is marked. -/
inductive Row (p : Publish) (t : Tables) (x : Entity) : Prop where
  | own {e : EntityRecord} (he : e ∈ p.entities) (hi : e.interior = true) (hx : x = p.ownedRow e)
  | shared {e : EntityRecord} (he : e ∈ p.entities) (hi : e.interior = false)
      (haid : x.artifactId = p.target.artifact.id)
      (hid : x.id = entityId p.target.artifact e.localKey) (hl : x.localKey = e.localKey)
      (hk : (x.kind = "function" ∧ ∃ key, x.localKey = functionLocal key) ∨
        (x.kind = "global" ∧ GlobalKey x.localKey)) (ho : x.functionId = none)
  | kept {y : Entity} (hy : y ∈ t.entities) (ho : y.functionId ≠ some p.target.handle)
      (hfree : ∀ e ∈ p.entities, ¬ (y.artifactId = p.target.artifact.id ∧ y.localKey = e.localKey))
      (hx : x = if y.id = p.target.handle then ready y else y)

theorem Fits.ownedRow_ne (h : p.Fits T t) {e : EntityRecord} (he : e ∈ p.entities)
    (hi : e.interior = true) : (p.ownedRow e).id ≠ p.target.handle := by
  intro heq
  rw [h.named] at heq
  have hkey := entityId_right_inj (h.own.colon_mem he) (colon_mem_functionLocal _) heq
  exact Territory.ne_functionLocal ((h.own.interior_iff he).mp hi) _ hkey

/-- **The entities after the publish.** -/
theorem Fits.row (h : p.Fits T t) (hr : p.Resolved t) {x : Entity}
    (hx : x ∈ (p.published t).entities) : p.Row t x := by
  rw [h.published_eq hr] at hx
  obtain ⟨r', hr', rfl⟩ := mem_updateWhere.mp hx
  obtain ⟨r, hrm, rfl⟩ := List.mem_map.mp hr'
  have hup := h.upserted hrm
  by_cases hf : ∃ e ∈ p.entities, e.interior = true ∧ r = entityRow p.target.artifact e
  · obtain ⟨e, he, hi, rfl⟩ := hf
    rw [h.claimRow_fresh he hi]
    refine .own he hi (if_neg ?_)
    simpa using h.ownedRow_ne he hi
  · have hother := h.claimRow_other hup fun e he hi hr => hf ⟨e, he, hi, hr⟩
    rw [hother]
    rcases hup with ⟨he, hi, hrow⟩ | ⟨he, hi, haid, hid, hl, hk, ho⟩ | ⟨hrt, ho, hfree⟩
    · exact absurd ⟨_, he, hi, hrow⟩ hf
    · refine .shared he hi ?_ ?_ ?_ ?_ ?_
      · split
        · exact haid
        · exact haid
      · split
        · exact hid
        · exact hid
      · split
        · exact hl
        · exact hl
      · split
        · exact hk
        · exact hk
      · split
        · exact ho
        · exact ho
    · exact .kept hrt ho hfree (by simp only [decide_eq_true_eq])

/-- Every interior entity of the stream gets its row. -/
theorem Fits.mem_own (h : p.Fits T t) (hr : p.Resolved t) {e : EntityRecord} (he : e ∈ p.entities)
    (hi : e.interior = true) : p.ownedRow e ∈ (p.published t).entities := by
  have hnone : lookup Entity.localPair (entityRow p.target.artifact e).localPair
      (p.keptEntities t) = none := by
    refine lookup_eq_none_iff.mpr fun y hy heq => ?_
    obtain ⟨haid, hl⟩ := Prod.mk.inj heq
    refine h.kept_free hy haid ?_
    rw [hl]
    exact (h.own.interior_iff he).mp hi
  have hm : entityRow p.target.artifact e ∈ (p.replaced t).entities :=
    h.mem_replaced.mpr (Or.inl ⟨e, he, rfl, by rw [hnone]; rfl⟩)
  rw [h.published_eq hr]
  refine mem_updateWhere.mpr ⟨_, List.mem_map_of_mem hm, ?_⟩
  rw [h.claimRow_fresh he hi, if_neg]
  simpa using h.ownedRow_ne he hi

/-- An old row the stream does not name stays, with the function's own row marked. -/
theorem Fits.mem_kept (h : p.Fits T t) (hr : p.Resolved t) {y : Entity} (hy : y ∈ t.entities)
    (ho : y.functionId ≠ some p.target.handle)
    (hfree : ∀ e ∈ p.entities, ¬ (y.artifactId = p.target.artifact.id ∧ y.localKey = e.localKey)) :
    (if y.id = p.target.handle then ready y else y) ∈ (p.published t).entities := by
  have hkept : y ∈ p.keptEntities t := mem_deleteWhere.mpr ⟨hy, by simp [ho]⟩
  have hm : y ∈ (p.replaced t).entities :=
    h.mem_replaced.mpr (Or.inr ⟨hkept, fun e he heq => hfree e he
      ⟨(Prod.mk.inj heq).1.symm, (Prod.mk.inj heq).2.symm⟩⟩)
  rw [h.published_eq hr]
  refine mem_updateWhere.mpr ⟨_, List.mem_map_of_mem hm, ?_⟩
  have hother := h.claimRow_other (.kept hy ho hfree) fun e he _ hrow =>
    hfree e he (by rw [hrow]; exact ⟨rfl, rfl⟩)
  rw [hother]
  simp only [decide_eq_true_eq]

/-- A row of another function is not named by the stream. -/
theorem Fits.free_of_owner (h : p.Fits T t) {y : Entity} (hy : y ∈ t.entities)
    (ho : y.functionId.isSome) (hne : y.functionId ≠ some p.target.handle) :
    ∀ e ∈ p.entities, ¬ (y.artifactId = p.target.artifact.id ∧ y.localKey = e.localKey) := by
  intro e he hc
  obtain ⟨a, ha, haid, _⟩ := h.artifact
  obtain ⟨_, hp⟩ := h.sound.id_of_entity h.constraints ha hy (hc.1.trans haid.symm)
  rcases h.own.entities e he with ⟨_, key, hl⟩ | ⟨_, hl⟩ | ⟨_, _, hown⟩
  · rw [(hp.of_functionLocal (hc.2.trans hl)).2] at ho
    cases ho
  · rw [(hp.of_global (hc.2 ▸ hl)).2] at ho
    cases ho
  · refine hne ?_
    rw [h.named]
    exact (h.owner_iff hy p.target.key).mpr ⟨hc.1, hc.2 ▸ hown⟩

/-- A row of another function stays as it is. -/
theorem Fits.mem_other (h : p.Fits T t) (hr : p.Resolved t) {y : Entity} (hy : y ∈ t.entities)
    (ho : y.functionId.isSome) (hne : y.functionId ≠ some p.target.handle) :
    y ∈ (p.published t).entities := by
  have hm := h.mem_kept hr hy hne (h.free_of_owner hy ho hne)
  have hid : y.id ≠ p.target.handle := by
    intro hid
    rw [h.handle_free hy hid] at ho
    cases ho
  rwa [if_neg hid] at hm

/-- **The rows a function owns after the publish** are its snapshot, or what they were. -/
theorem Fits.owned_row (h : p.Fits T t) (hr : p.Resolved t) {x : Entity}
    (hx : x ∈ (p.published t).entities) (ho : x.functionId.isSome) :
    (∃ e ∈ p.entities, e.interior = true ∧ x = p.ownedRow e) ∨
      (x ∈ t.entities ∧ x.functionId ≠ some p.target.handle) := by
  rcases h.row hr hx with ⟨he, hi, hrow⟩ | ⟨_, _, _, _, _, _, hnone⟩ | ⟨hy, hne, hfree, hrow⟩
  · exact Or.inl ⟨_, he, hi, hrow⟩
  · rw [hnone] at ho
    cases ho
  · rename_i y
    have hid : y.id ≠ p.target.handle := by
      intro hid
      rw [if_pos hid] at hrow
      have hready : (ready y).functionId = y.functionId := rfl
      rw [hrow, hready, h.handle_free hy hid] at ho
      cases ho
    rw [if_neg hid] at hrow
    subst hrow
    exact Or.inr ⟨hy, hne⟩

/-- What names an endpoint is a key with a colon. -/
theorem Fits.ids_colon (h : p.Fits T t) {l i : String}
    (hi : p.localIds (p.replaced t) l = some i) : ':' ∈ l.toList := by
  unfold localIds localToId at hi
  split at hi
  · rename_i hm
    obtain ⟨e, he, rfl⟩ := List.mem_map.mp hm
    exact h.own.colon_mem he
  · split at hi
    · obtain ⟨r, hr, rfl⟩ := Option.map_eq_some_iff.mp hi
      have hr : lookup Entity.localPair (p.target.artifact.id, l) (p.replaced t).entities =
          some r := hr
      have hpair : r.localPair = (p.target.artifact.id, l) := key_of_lookup hr
      have hl : r.localKey = l := (Prod.mk.inj hpair).2
      rw [← hl]
      rcases h.upserted (mem_of_lookup hr) with ⟨he, _, hrow⟩ | ⟨he, _, _, _, hl', _, _⟩ | ⟨hrt, _, _⟩
      · rw [hrow]
        exact h.own.colon_mem he
      · rw [hl']
        exact h.own.colon_mem he
      · obtain ⟨_, _, _, _, hp⟩ := h.sound.entities r hrt
        exact hp.colon_mem
    · cases hi

/-- An entity a relation of the snapshot joins belongs to the function or to none. -/
theorem Fits.endpoint_owner (h : p.Fits T t) (hr : p.Resolved t) {r : RelationRecord}
    (hm : r ∈ p.relations) {x : Entity} (hx : x ∈ (p.published t).entities)
    (hid : x.id = (p.snapshotRelation r).srcId ∨ x.id = (p.snapshotRelation r).dstId) {o : String}
    (ho : x.functionId = some o) : o = p.target.handle := by
  rcases h.owned_row hr hx (by rw [ho]; rfl) with ⟨e, _, _, hrow⟩ | ⟨hxt, _⟩
  · rw [hrow] at ho
    exact (Option.some.inj ho).symm
  · obtain ⟨⟨i, hi⟩, j, hj⟩ := hr.relations r hm
    obtain ⟨l, hl, hcolon, hidl⟩ : ∃ l, (l = r.src ∨ l = r.dst) ∧ ':' ∈ l.toList ∧
        x.id = entityId p.target.artifact l := by
      rcases hid with hid | hid
      · exact ⟨r.src, Or.inl rfl, h.ids_colon hi, hid⟩
      · exact ⟨r.dst, Or.inr rfl, h.ids_colon hj, hid⟩
    obtain ⟨haid, hxl⟩ := h.entity_of_id hcolon hxt hidl
    obtain ⟨a, ha, haid', heq⟩ := h.artifact
    obtain ⟨_, hp⟩ := h.sound.id_of_entity h.constraints ha hxt (haid.trans haid'.symm)
    rcases hp with ⟨_, _, _, ho'⟩ | ⟨_, _, ho'⟩ | ⟨key, _, _, hown, ho'⟩
    · rw [ho'] at ho
      cases ho
    · rw [ho'] at ho
      cases ho
    · rw [hxl] at hown
      rw [ho', h.own.endpoints r hm l hl key hown, heq] at ho
      rw [h.named]
      exact (Option.some.inj ho).symm

theorem snapshotRelation_functionId (h : p.Fits T t) (r : RelationRecord) :
    (p.snapshotRelation r).functionId = some p.target.handle := by
  show some (p.functionId _) = _
  rw [h.named_functionId]

/-- **A publish keeps the invariant.** -/
theorem Fits.sound_published (h : p.Fits T t) (hr : p.Resolved t) : Sound T (p.published t) := by
  obtain ⟨a, ha, haid, heq⟩ := h.artifact
  have hart : (p.published t).artifacts = t.artifacts := by rw [h.published_eq hr]
  refine ⟨by rw [hart]; exact h.sound.artifacts, fun x hx => ?_, fun r hrm => ?_, fun s hsm => ?_⟩
  · rw [hart]
    rcases h.row hr hx with ⟨he, hi, hrow⟩ | ⟨he, _, hxa, hid, hl, hk, ho⟩ | ⟨hy, hne, hfree, hrow⟩
    · rename_i e
      refine ⟨a, ha, by rw [hrow]; exact haid, by rw [hrow, heq]; rfl, ?_⟩
      have hkind : e.kind ≠ "function" ∧ e.kind ≠ "global" := by
        simpa [EntityRecord.interior] using hi
      rw [hrow]
      exact .interior p.target.key hkind.1 hkind.2 ((h.own.interior_iff he).mp hi)
        (by rw [heq, ← h.named]; rfl)
    · refine ⟨a, ha, haid.trans hxa.symm, by rw [hid, heq, hl], ?_⟩
      rcases hk with ⟨hk, key, hkey⟩ | ⟨hk, hg⟩
      · exact .function key hk hkey ho
      · exact .global hk hg ho
    · rename_i y
      obtain ⟨b, hb, hby, hid, hp⟩ := h.sound.entities y hy
      have hcol : x.id = y.id ∧ x.artifactId = y.artifactId ∧ x.functionId = y.functionId ∧
          x.kind = y.kind ∧ x.localKey = y.localKey := by
        rw [hrow]
        split
        · exact ⟨rfl, rfl, rfl, rfl, rfl⟩
        · exact ⟨rfl, rfl, rfl, rfl, rfl⟩
      obtain ⟨h1, h2, h3, h4, h5⟩ := hcol
      refine ⟨b, hb, hby.trans h2.symm, by rw [h1, h5]; exact hid, ?_⟩
      rcases hp with ⟨key, hk, hl, ho⟩ | ⟨hk, hl, ho⟩ | ⟨key, hf, hg, hl, ho⟩
      · exact .function key (h4.trans hk) (h5.trans hl) (h3.trans ho)
      · exact .global (h4.trans hk) (h5 ▸ hl) (h3.trans ho)
      · exact .interior key (h4 ▸ hf) (h4 ▸ hg) (h5 ▸ hl) (h3.trans ho)
  · have hrel : (p.published t).relations = _ := congrArg Tables.relations (h.published_eq hr)
    rw [hrel] at hrm
    rcases List.mem_append.mp hrm with hrm | hrm
    · obtain ⟨hrt, hdel⟩ := mem_deleteWhere.mp hrm
      obtain ⟨f, hf, hends⟩ := h.sound.relations r hrt
      refine ⟨f, hf, fun x hx hend o ho => ?_⟩
      rcases h.owned_row hr hx (by rw [ho]; rfl) with ⟨e, he, hi, hrow⟩ | ⟨hxt, _⟩
      · -- an endpoint in the snapshot: the old row there was the function's, so `r` is gone
        obtain ⟨_, hsrc, hdst, _⟩ := h.constraints.relationRefs r hrt
        obtain ⟨y, hy, hyid⟩ : ∃ y ∈ t.entities, y.id = x.id := by
          rcases hend with hend | hend
          · obtain ⟨y, hy, hyid⟩ := List.mem_map.mp hsrc
            exact ⟨y, hy, hyid.trans hend.symm⟩
          · obtain ⟨y, hy, hyid⟩ := List.mem_map.mp hdst
            exact ⟨y, hy, hyid.trans hend.symm⟩
        have hyid' : y.id = entityId p.target.artifact e.localKey := by
          rw [hyid, hrow]
          rfl
        obtain ⟨hya, hyl⟩ := h.entity_of_id (h.own.colon_mem he) hy hyid'
        have hyo : y.functionId = some p.target.handle := by
          rw [h.named]
          exact (h.owner_iff hy p.target.key).mpr
            ⟨hya, by rw [hyl]; exact (h.own.interior_iff he).mp hi⟩
        have hmem : y.id ∈ t.owned p.target.handle :=
          List.mem_map_of_mem (List.mem_filter.mpr ⟨hy, by simpa using hyo⟩)
        rw [hyid] at hmem
        have hnot : ¬ (r.srcId ∈ t.owned p.target.handle ∨ r.dstId ∈ t.owned p.target.handle) := by
          simp only [Bool.or_eq_false_iff, decide_eq_false_iff_not] at hdel
          exact fun hc => hc.elim hdel.1.2 hdel.2
        rcases hend with hend | hend
        · exact absurd (Or.inl (hend ▸ hmem)) hnot
        · exact absurd (Or.inr (hend ▸ hmem)) hnot
      · exact hends x hxt hend o ho
    · obtain ⟨q, hq, rfl⟩ := List.mem_map.mp hrm
      exact ⟨_, snapshotRelation_functionId h q, fun x hx hend o ho =>
        h.endpoint_owner hr hq hx hend ho⟩
  · have hsrc : (p.published t).sourceLocations = _ :=
      congrArg Tables.sourceLocations (h.published_eq hr)
    rw [hsrc] at hsm
    rcases List.mem_append.mp hsm with hsm | hsm
    · obtain ⟨hst, hdel⟩ := mem_deleteWhere.mp hsm
      obtain ⟨y, hy, hid, ho⟩ := h.sound.sources s hst
      refine ⟨y, h.mem_other hr hy ho (fun hf => ?_), hid, ho⟩
      have hmem : y.id ∈ t.owned p.target.handle :=
        List.mem_map_of_mem (List.mem_filter.mpr ⟨hy, by simpa using hf⟩)
      rw [hid] at hmem
      simp [hmem] at hdel
    · obtain ⟨q, hq, rfl⟩ := List.mem_map.mp hsm
      obtain ⟨e, he, hi, hl⟩ := h.own.sources q hq
      refine ⟨p.ownedRow e, h.mem_own hr he hi, ?_, rfl⟩
      show entityId p.target.artifact e.localKey = entityId p.target.artifact q.entity
      rw [hl]

end Fits

end Publish

/-! ## 7. The tables after against those before -/

theorem mem_owned {t : Tables} {f id : String} :
    id ∈ t.owned f ↔ ∃ e ∈ t.entities, e.functionId = some f ∧ e.id = id := by
  unfold Tables.owned
  rw [List.mem_map]
  constructor
  · rintro ⟨e, he, hid⟩
    obtain ⟨he, ho⟩ := List.mem_filter.mp he
    exact ⟨e, he, by simpa using ho, hid⟩
  · rintro ⟨e, he, ho, hid⟩
    exact ⟨e, List.mem_filter.mpr ⟨he, by simpa using ho⟩, hid⟩

/-- The source locations of a function's entities. -/
def Tables.sourcesOf (t : Tables) (f : String) : List SourceLocation :=
  t.sourceLocations.filter fun s => s.entityId ∈ t.owned f

def Tables.relationsOf (t : Tables) (f : String) : List Relation :=
  t.relations.filter (·.functionId = some f)

def Tables.capabilitiesOf (t : Tables) (f : String) : List Capability :=
  t.capabilities.filter (·.functionId = f)

/-- The rows of the function `f` are unchanged. -/
structure SameRows (f : String) (t t' : Tables) : Prop where
  entities : ∀ x : Entity, x.functionId = some f → (x ∈ t'.entities ↔ x ∈ t.entities)
  relations : t'.relationsOf f = t.relationsOf f
  sources : t'.sourcesOf f = t.sourcesOf f
  capabilities : t'.capabilitiesOf f = t.capabilitiesOf f

/-- **The snapshot of one function is replaced**: its rows are exactly those of the stream,
    and no other function's rows change. -/
structure SnapshotReplaced (p : Publish) (t t' : Tables) : Prop where
  entities : ∀ x : Entity, (x ∈ t'.entities ∧ x.functionId = some p.target.handle) ↔
    ∃ e ∈ p.entities, e.interior = true ∧ x = p.ownedRow e
  relations : t'.relationsOf p.target.handle = p.relations.map p.snapshotRelation
  sources : t'.sourcesOf p.target.handle = p.sources.map p.snapshotSource
  capabilities : t'.capabilitiesOf p.target.handle =
    kMaterializationCapabilities.map p.snapshotCapability
  globals : ∀ x ∈ t'.entities, x.kind = "global" → x.functionId = none
  others : ∀ f, f ≠ p.target.handle → SameRows f t t'

namespace Publish

section Replaced

variable {T : Territory} {t : Tables} {p : Publish}

theorem Fits.entities_iff (h : p.Fits T t) (hr : p.Resolved t) (x : Entity) :
    (x ∈ (p.published t).entities ∧ x.functionId = some p.target.handle) ↔
      ∃ e ∈ p.entities, e.interior = true ∧ x = p.ownedRow e := by
  constructor
  · intro hx
    rcases h.owned_row hr hx.1 (by rw [hx.2]; rfl) with hown | ⟨_, hne⟩
    · exact hown
    · exact absurd hx.2 hne
  · intro hx
    obtain ⟨e, he, hi, rfl⟩ := hx
    exact ⟨h.mem_own hr he hi, rfl⟩

theorem Fits.entities_other (h : p.Fits T t) (hr : p.Resolved t) {f : String}
    (hf : f ≠ p.target.handle) {x : Entity} (ho : x.functionId = some f) :
    x ∈ (p.published t).entities ↔ x ∈ t.entities := by
  have hne : x.functionId ≠ some p.target.handle := by
    rw [ho]
    exact fun he => hf (Option.some.inj he)
  constructor
  · intro hx
    rcases h.owned_row hr hx (by rw [ho]; rfl) with ⟨e, _, _, hrow⟩ | ⟨hxt, _⟩
    · exact absurd (by rw [hrow]; rfl) hne
    · exact hxt
  · intro hx
    exact h.mem_other hr hx (by rw [ho]; rfl) hne

theorem Fits.owned_other (h : p.Fits T t) (hr : p.Resolved t) {f : String}
    (hf : f ≠ p.target.handle) (id : String) : id ∈ (p.published t).owned f ↔ id ∈ t.owned f := by
  rw [mem_owned, mem_owned]
  constructor
  · intro hx
    obtain ⟨e, he, ho, hid⟩ := hx
    exact ⟨e, (h.entities_other hr hf ho).mp he, ho, hid⟩
  · intro hx
    obtain ⟨e, he, ho, hid⟩ := hx
    exact ⟨e, (h.entities_other hr hf ho).mpr he, ho, hid⟩

/-- An entity has one owner. -/
theorem owned_disjoint (hc : t.Constraints) {f g id : String} (hf : id ∈ t.owned f)
    (hg : id ∈ t.owned g) : f = g := by
  obtain ⟨e, he, ho, hid⟩ := mem_owned.mp hf
  obtain ⟨e', he', ho', hid'⟩ := mem_owned.mp hg
  obtain rfl := List.inj_on_of_nodup_map hc.entityKey he he' (hid.trans hid'.symm)
  rw [ho] at ho'
  exact Option.some.inj ho'

/-- A source location of a declared instruction lies in the snapshot. -/
theorem Fits.source_owned (h : p.Fits T t) (hr : p.Resolved t) {s : SourceRecord}
    (hs : s ∈ p.sources) : (p.snapshotSource s).entityId ∈ (p.published t).owned p.target.handle := by
  obtain ⟨e, he, hi, hl⟩ := h.own.sources s hs
  refine mem_owned.mpr ⟨p.ownedRow e, h.mem_own hr he hi, rfl, ?_⟩
  show entityId p.target.artifact e.localKey = entityId p.target.artifact s.entity
  rw [hl]

/-- What survives the deletes is not in the snapshot. -/
theorem Fits.old_source (h : p.Fits T t) (hr : p.Resolved t) {s : SourceLocation}
    (hs : s ∈ t.sourceLocations) (hdel : s.entityId ∉ t.owned p.target.handle) :
    s.entityId ∉ (p.published t).owned p.target.handle := by
  intro hm
  obtain ⟨x, hx, ho, hid⟩ := mem_owned.mp hm
  obtain ⟨e, he, hi, hrow⟩ := (h.entities_iff hr x).mp ⟨hx, ho⟩
  obtain ⟨y, hy, hyid, _⟩ := h.sound.sources s hs
  have hyid' : y.id = entityId p.target.artifact e.localKey := by
    rw [hyid, ← hid, hrow]
    rfl
  obtain ⟨hya, hyl⟩ := h.entity_of_id (h.own.colon_mem he) hy hyid'
  refine hdel (mem_owned.mpr ⟨y, hy, ?_, hyid⟩)
  rw [h.named]
  exact (h.owner_iff hy p.target.key).mpr
    ⟨hya, by rw [hyl]; exact (h.own.interior_iff he).mp hi⟩

theorem Fits.sourcesOf_self (h : p.Fits T t) (hr : p.Resolved t) :
    (p.published t).sourcesOf p.target.handle = p.sources.map p.snapshotSource := by
  have hsrc : (p.published t).sourceLocations = _ :=
    congrArg Tables.sourceLocations (h.published_eq hr)
  unfold Tables.sourcesOf
  rw [hsrc, List.filter_append]
  have hold : (deleteWhere (fun s : SourceLocation => s.entityId ∈ t.owned p.target.handle)
      t.sourceLocations).filter (fun s => s.entityId ∈ (p.published t).owned p.target.handle) = [] := by
    refine List.filter_eq_nil_iff.mpr fun s hs => ?_
    obtain ⟨hst, hdel⟩ := mem_deleteWhere.mp hs
    have hno := h.old_source hr hst (by simpa using hdel)
    simpa using hno
  have hnew : (p.sources.map p.snapshotSource).filter
      (fun s => s.entityId ∈ (p.published t).owned p.target.handle) =
      p.sources.map p.snapshotSource := by
    refine List.filter_eq_self.mpr fun s hs => ?_
    obtain ⟨q, hq, rfl⟩ := List.mem_map.mp hs
    exact decide_eq_true (h.source_owned hr hq)
  rw [hold, hnew, List.nil_append]

theorem Fits.sourcesOf_other (h : p.Fits T t) (hr : p.Resolved t) {f : String}
    (hf : f ≠ p.target.handle) : (p.published t).sourcesOf f = t.sourcesOf f := by
  have hsrc : (p.published t).sourceLocations = _ :=
    congrArg Tables.sourceLocations (h.published_eq hr)
  unfold Tables.sourcesOf
  rw [hsrc, List.filter_append]
  have hnew : (p.sources.map p.snapshotSource).filter
      (fun s => s.entityId ∈ (p.published t).owned f) = [] := by
    refine List.filter_eq_nil_iff.mpr fun s hs => ?_
    obtain ⟨q, hq, rfl⟩ := List.mem_map.mp hs
    have hown := h.source_owned hr hq
    obtain ⟨x, hx, ho, hid⟩ := mem_owned.mp hown
    intro hm
    obtain ⟨x', hx', ho', hid'⟩ := mem_owned.mp (of_decide_eq_true hm)
    have hxt := (h.entities_other hr hf ho').mp hx'
    obtain ⟨e, he, hi, hrow⟩ := (h.entities_iff hr x).mp ⟨hx, ho⟩
    have hidx : x'.id = entityId p.target.artifact e.localKey := by
      rw [hid', ← hid, hrow]
      rfl
    have hne : x'.functionId ≠ some p.target.handle := by
      rw [ho']
      exact fun heq => hf (Option.some.inj heq)
    exact h.free_of_owner hxt (by rw [ho']; rfl) hne e he
      (h.entity_of_id (h.own.colon_mem he) hxt hidx)
  rw [hnew, List.append_nil]
  unfold deleteWhere
  rw [List.filter_filter]
  refine List.filter_congr fun s _ => ?_
  have hiff := h.owned_other hr hf s.entityId
  by_cases hm : s.entityId ∈ t.owned f
  · have hnot : s.entityId ∉ t.owned p.target.handle := fun hm' =>
      hf (owned_disjoint h.constraints hm hm')
    simp [hiff.mpr hm, hm, hnot]
  · have hm' : s.entityId ∉ (p.published t).owned f := fun hc => hm (hiff.mp hc)
    simp [hm, hm']

theorem Fits.relationsOf_self (h : p.Fits T t) (hr : p.Resolved t) :
    (p.published t).relationsOf p.target.handle = p.relations.map p.snapshotRelation := by
  have hrel : (p.published t).relations = _ := congrArg Tables.relations (h.published_eq hr)
  unfold Tables.relationsOf
  rw [hrel, List.filter_append]
  have hold : (deleteWhere (fun r : Relation => r.functionId = some p.target.handle ||
      r.srcId ∈ t.owned p.target.handle || r.dstId ∈ t.owned p.target.handle)
      t.relations).filter (·.functionId = some p.target.handle) = [] := by
    refine List.filter_eq_nil_iff.mpr fun r hrm => ?_
    obtain ⟨_, hdel⟩ := mem_deleteWhere.mp hrm
    simp only [Bool.or_eq_false_iff, decide_eq_false_iff_not] at hdel
    simpa using hdel.1.1
  have hnew : (p.relations.map p.snapshotRelation).filter
      (·.functionId = some p.target.handle) = p.relations.map p.snapshotRelation := by
    refine List.filter_eq_self.mpr fun r hrm => ?_
    obtain ⟨q, _, rfl⟩ := List.mem_map.mp hrm
    exact decide_eq_true (snapshotRelation_functionId h q)
  rw [hold, hnew, List.nil_append]

theorem Fits.relationsOf_other (h : p.Fits T t) (hr : p.Resolved t) {f : String}
    (hf : f ≠ p.target.handle) : (p.published t).relationsOf f = t.relationsOf f := by
  have hrel : (p.published t).relations = _ := congrArg Tables.relations (h.published_eq hr)
  unfold Tables.relationsOf
  rw [hrel, List.filter_append]
  have hnew : (p.relations.map p.snapshotRelation).filter (·.functionId = some f) = [] := by
    refine List.filter_eq_nil_iff.mpr fun r hrm => ?_
    obtain ⟨q, _, rfl⟩ := List.mem_map.mp hrm
    rw [snapshotRelation_functionId h q]
    simpa using fun he : p.target.handle = f => hf he.symm
  rw [hnew, List.append_nil]
  unfold deleteWhere
  rw [List.filter_filter]
  refine List.filter_congr fun r hrm => ?_
  by_cases hfr : r.functionId = some f
  · -- a relation of another function has no endpoint in this one
    obtain ⟨g, hg, hends⟩ := h.sound.relations r hrm
    obtain rfl : g = f := Option.some.inj (hg.symm.trans hfr)
    have hout : ∀ id, (id = r.srcId ∨ id = r.dstId) → id ∉ t.owned p.target.handle := by
      intro id hid hm
      obtain ⟨x, hx, ho, hxid⟩ := mem_owned.mp hm
      exact hf (hends x hx (by rw [hxid]; exact hid) _ ho).symm
    have h1 := hout _ (Or.inl rfl)
    have h2 := hout _ (Or.inr rfl)
    simp [hfr, h1, h2, hf]
  · simp [hfr]

theorem Fits.capabilitiesOf_self (h : p.Fits T t) (hr : p.Resolved t) :
    (p.published t).capabilitiesOf p.target.handle =
      kMaterializationCapabilities.map p.snapshotCapability := by
  have hcap : (p.published t).capabilities = _ := congrArg Tables.capabilities (h.published_eq hr)
  unfold Tables.capabilitiesOf
  rw [hcap, List.filter_append]
  have hold : (deleteWhere (fun c : Capability => c.functionId = p.target.handle)
      t.capabilities).filter (·.functionId = p.target.handle) = [] := by
    refine List.filter_eq_nil_iff.mpr fun c hcm => ?_
    obtain ⟨_, hdel⟩ := mem_deleteWhere.mp hcm
    simpa using hdel
  have hnew : (kMaterializationCapabilities.map p.snapshotCapability).filter
      (·.functionId = p.target.handle) = kMaterializationCapabilities.map p.snapshotCapability := by
    refine List.filter_eq_self.mpr fun c hcm => ?_
    obtain ⟨q, _, rfl⟩ := List.mem_map.mp hcm
    exact decide_eq_true h.named_functionId
  rw [hold, hnew, List.nil_append]

theorem Fits.capabilitiesOf_other (h : p.Fits T t) (hr : p.Resolved t) {f : String}
    (hf : f ≠ p.target.handle) : (p.published t).capabilitiesOf f = t.capabilitiesOf f := by
  have hcap : (p.published t).capabilities = _ := congrArg Tables.capabilities (h.published_eq hr)
  unfold Tables.capabilitiesOf
  rw [hcap, List.filter_append]
  have hnew : (kMaterializationCapabilities.map p.snapshotCapability).filter
      (·.functionId = f) = [] := by
    refine List.filter_eq_nil_iff.mpr fun c hcm => ?_
    obtain ⟨q, _, rfl⟩ := List.mem_map.mp hcm
    have hq : (p.snapshotCapability q).functionId = p.target.handle := h.named_functionId
    rw [hq]
    simpa using fun he : p.target.handle = f => hf he.symm
  rw [hnew, List.append_nil]
  unfold deleteWhere
  rw [List.filter_filter]
  refine List.filter_congr fun c _ => ?_
  by_cases hc : c.functionId = f
  · simp [hc, hf]
  · simp [hc]

/-- A global has no owner. -/
theorem Fits.globals (h : p.Fits T t) (hr : p.Resolved t) {x : Entity}
    (hx : x ∈ (p.published t).entities) (hk : x.kind = "global") : x.functionId = none := by
  obtain ⟨_, _, _, _, hp⟩ := (h.sound_published hr).entities x hx
  rcases hp with ⟨_, hf, _, _⟩ | ⟨_, _, ho⟩ | ⟨_, _, hg, _, _⟩
  · rw [hk] at hf
    exact absurd hf (by decide)
  · exact ho
  · exact absurd hk hg

/-- **A publish replaces exactly one function's snapshot.** -/
theorem Fits.snapshotReplaced (h : p.Fits T t) (hr : p.Resolved t) :
    SnapshotReplaced p t (p.published t) where
  entities := h.entities_iff hr
  relations := h.relationsOf_self hr
  sources := h.sourcesOf_self hr
  capabilities := h.capabilitiesOf_self hr
  globals _ hx hk := h.globals hr hx hk
  others _ hf :=
    { entities := fun _ ho => h.entities_other hr hf ho
      relations := h.relationsOf_other hr hf
      sources := h.sourcesOf_other hr hf
      capabilities := h.capabilitiesOf_other hr hf }

end Replaced

end Publish

/-! ## 8. A committed publish -/

theorem checkLocals_ok {declared : List String} {es : List EntityRecord}
    (h : checkLocals declared es = .ok ()) :
    (es.map (·.localKey)).Nodup ∧ ∀ e ∈ es, e.localKey ∉ declared := by
  induction es generalizing declared with
  | nil => exact ⟨List.nodup_nil, fun e he => absurd he List.not_mem_nil⟩
  | cons e es ih =>
    unfold checkLocals at h
    split at h
    · cases h
    · rename_i hfresh
      obtain ⟨hn, hout⟩ := ih h
      simp only [Bool.or_eq_true, decide_eq_true_eq, not_or] at hfresh
      refine ⟨List.nodup_cons.mpr ⟨fun hm => ?_, hn⟩, fun x hx => ?_⟩
      · obtain ⟨x, hx, hxe⟩ := List.mem_map.mp hm
        exact hout x hx (hxe ▸ List.mem_cons_self)
      · rcases List.mem_cons.mp hx with rfl | hx
        · exact hfresh.2
        · exact fun hm => hout x hx (List.mem_cons_of_mem _ hm)

/-- A publish that commits on sound tables fits them, resolves its names, and leaves the
    tables in closed form. -/
theorem Publish.exec_published {T : Territory} {p : Publish} {io : Faults} {db db' : Database}
    (hs : Sound T db.toTables) (hst : db.Stores p.target.artifact) (hn : p.target.Named)
    (ho : p.Own T) (h : p.exec io db = .ok db') :
    p.Fits T db.toTables ∧ p.Resolved db.toTables ∧ db'.toTables = p.published db.toTables := by
  obtain ⟨hlocals, _, _, hrel, hsrc, ht⟩ := Publish.exec_ok h
  exact ⟨⟨hs, db.constraints, hst, hn, ho, (checkLocals_ok hlocals).1⟩,
    Publish.resolved_of_checks hrel hsrc, ht⟩

end Irez
