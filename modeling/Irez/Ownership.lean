/-
  File:      Irez/Ownership.lean
  Subject:   Which function a row belongs to: the invariant of the tables under
             cataloguing and materializing.

  An entity inside a function belongs to the function whose key its local key carries.
  How keys are shared out is a `Territory`: in general the interior keys of a function
  (`Territory.scoped`), or, where only one function is ever analysed, all interior keys
  (`Territory.only`).

  * `Sound` -- ids are handles, entities lie where their key says, a relation joins
    entities of one function and of none, source locations lie inside functions;
  * `Sound.owner_iff` -- the owner of an entity can be read off its local key;
  * `Sound.catalog`, `Sound.claimFunction` and the like -- the transactions that do not
    replace a snapshot keep the invariant.
-/
import Irez.Failure

open Irez.Basis

namespace Irez

/-! ## 1. Territories -/

/-- Which interior keys belong to which function key: no key to two of them. -/
structure Territory where
  owns : String → String → Prop
  colon : ∀ {key l}, owns key l → ':' ∈ l.toList
  head : ∀ {key l}, owns key l → headField ':' l ∈ interiorHeads
  disjoint : ∀ {key key' l}, owns key l → owns key' l → key = key'

/-- Each function key has the interior keys that carry it. -/
def Territory.scoped : Territory where
  owns key l := ':' ∉ key.toList ∧ ScopedTo key l
  colon h := h.2.colon_mem
  head h := h.2.head_mem
  disjoint h h' := ScopedTo.inj h.1 h'.1 h.2 h'.2

/-- One function key has all interior keys. -/
def Territory.only (key : String) : Territory where
  owns k l := k = key ∧ ':' ∈ l.toList ∧ headField ':' l ∈ interiorHeads
  colon h := h.2.1
  head h := h.2.2
  disjoint h h' := h.1.trans h'.1.symm

section Territory

variable {T : Territory} {key l : String}

theorem Territory.ne_functionLocal (h : T.owns key l) (key' : String) : l ≠ functionLocal key' := by
  intro he
  have hm := T.head h
  rw [he, headField_functionLocal] at hm
  revert hm
  decide

theorem Territory.not_global (h : T.owns key l) : ¬ GlobalKey l := by
  intro hg
  have hm := T.head h
  rw [hg.head_eq] at hm
  revert hm
  decide

end Territory

theorem GlobalKey.ne_functionLocal {l : String} (h : GlobalKey l) (key : String) :
    l ≠ functionLocal key := by
  intro he
  have hm := h.head_eq
  rw [he, headField_functionLocal] at hm
  revert hm
  decide

/-! ## 2. The invariant -/

/-- The id of an artifact is made of the first 16 digits of its hash. -/
structure Artifact.WellNamed (a : Artifact) : Prop where
  id : a.id = "artifact:" ++ shortHash a.contentSha256
  length : (shortHash a.contentSha256).length = 16

/-- Where an entity of the artifact `a` lies, and who owns it. -/
inductive Entity.Placed (T : Territory) (a : Artifact) (e : Entity) : Prop where
  | function (key : String) (hk : e.kind = "function") (hl : e.localKey = functionLocal key)
      (ho : e.functionId = none)
  | global (hk : e.kind = "global") (hl : GlobalKey e.localKey) (ho : e.functionId = none)
  | interior (key : String) (hf : e.kind ≠ "function") (hg : e.kind ≠ "global")
      (hl : T.owns key e.localKey) (ho : e.functionId = some (entityId a (functionLocal key)))

structure Sound (T : Territory) (t : Tables) : Prop where
  artifacts : ∀ a ∈ t.artifacts, a.WellNamed
  entities : ∀ e ∈ t.entities, ∃ a ∈ t.artifacts, a.id = e.artifactId ∧
    e.id = entityId a e.localKey ∧ e.Placed T a
  relations : ∀ r ∈ t.relations, ∃ f, r.functionId = some f ∧
    ∀ e ∈ t.entities, e.id = r.srcId ∨ e.id = r.dstId → ∀ o, e.functionId = some o → o = f
  sources : ∀ s ∈ t.sourceLocations, ∃ e ∈ t.entities, e.id = s.entityId ∧ e.functionId.isSome

section Placed

variable {T : Territory} {a : Artifact} {e : Entity}

theorem Entity.Placed.colon_mem (h : e.Placed T a) : ':' ∈ e.localKey.toList := by
  rcases h with ⟨key, _, hl, _⟩ | ⟨_, hl, _⟩ | ⟨key, _, _, hl, _⟩
  · rw [hl]
    exact colon_mem_functionLocal key
  · exact hl.colon_mem
  · exact T.colon hl

theorem Entity.Placed.of_functionLocal (h : e.Placed T a) {key : String}
    (hl : e.localKey = functionLocal key) : e.kind = "function" ∧ e.functionId = none := by
  rcases h with ⟨_, hk, _, ho⟩ | ⟨_, hg, _⟩ | ⟨key', _, _, hown, _⟩
  · exact ⟨hk, ho⟩
  · exact absurd hl (hg.ne_functionLocal key)
  · exact absurd hl (Territory.ne_functionLocal hown key)

theorem Entity.Placed.of_global (h : e.Placed T a) (hl : GlobalKey e.localKey) :
    e.kind = "global" ∧ e.functionId = none := by
  rcases h with ⟨key, _, hf, _⟩ | ⟨hk, _, ho⟩ | ⟨key', _, _, hown, _⟩
  · exact absurd hf (hl.ne_functionLocal key)
  · exact ⟨hk, ho⟩
  · exact absurd hl (Territory.not_global hown)

end Placed

/-! ## 3. Reading owners off keys -/

section Owners

variable {T : Territory} {t : Tables}

/-- Two stored artifacts with one short hash are one. -/
theorem Sound.artifact_eq (h : Sound T t) (hc : t.Constraints) {a b : Artifact} (ha : a ∈ t.artifacts)
    (hb : b ∈ t.artifacts) (he : shortHash a.contentSha256 = shortHash b.contentSha256) : a = b := by
  refine List.inj_on_of_nodup_map hc.artifactKey ha hb ?_
  rw [(h.artifacts a ha).id, (h.artifacts b hb).id, he]

/-- A handle determines the artifact and the local key. -/
theorem Sound.handle_inj (h : Sound T t) (hc : t.Constraints) {a b : Artifact} (ha : a ∈ t.artifacts)
    (hb : b ∈ t.artifacts) {l l' : String} (hl : ':' ∈ l.toList) (hl' : ':' ∈ l'.toList)
    (he : entityId a l = entityId b l') : a = b ∧ l = l' := by
  obtain ⟨hs, hk⟩ := entityId_inj (h.artifacts a ha).length (h.artifacts b hb).length hl hl' he
  exact ⟨h.artifact_eq hc ha hb hs, hk⟩

/-- The row a handle names lies in that artifact under that key. -/
theorem Sound.entity_of_id (h : Sound T t) (hc : t.Constraints) {a : Artifact} (ha : a ∈ t.artifacts)
    {l : String} (hl : ':' ∈ l.toList) {e : Entity} (he : e ∈ t.entities)
    (hid : e.id = entityId a l) : e.artifactId = a.id ∧ e.localKey = l ∧ e.Placed T a := by
  obtain ⟨b, hb, hba, hid', hp⟩ := h.entities e he
  obtain ⟨rfl, hk⟩ := h.handle_inj hc hb ha hp.colon_mem hl (hid'.symm.trans hid)
  exact ⟨hba.symm, hk, hp⟩

/-- A row of an artifact is named by the handle of its key, and lies there. -/
theorem Sound.id_of_entity (h : Sound T t) (hc : t.Constraints) {a : Artifact}
    (ha : a ∈ t.artifacts) {e : Entity} (he : e ∈ t.entities) (hid : e.artifactId = a.id) :
    e.id = entityId a e.localKey ∧ e.Placed T a := by
  obtain ⟨b, hb, hba, hid', hp⟩ := h.entities e he
  obtain rfl : b = a := List.inj_on_of_nodup_map hc.artifactKey hb ha (hba.trans hid)
  exact ⟨hid', hp⟩

/-- **The owner of an entity**: a function owns the entities of its artifact whose keys
    lie in its territory, and no others. -/
theorem Sound.owner_iff (h : Sound T t) (hc : t.Constraints) {a : Artifact} (ha : a ∈ t.artifacts)
    {e : Entity} (he : e ∈ t.entities) (key : String) :
    e.functionId = some (entityId a (functionLocal key)) ↔
      e.artifactId = a.id ∧ T.owns key e.localKey := by
  obtain ⟨b, hb, hba, hid, hp⟩ := h.entities e he
  constructor
  · intro ho
    rcases hp with ⟨_, _, _, ho'⟩ | ⟨_, _, ho'⟩ | ⟨key', _, _, hl, ho'⟩
    · rw [ho'] at ho
      cases ho
    · rw [ho'] at ho
      cases ho
    · rw [ho'] at ho
      obtain ⟨rfl, hk⟩ := h.handle_inj hc hb ha (colon_mem_functionLocal key')
        (colon_mem_functionLocal key) (Option.some.inj ho)
      obtain rfl := functionLocal_inj hk
      exact ⟨hba.symm, hl⟩
  · intro hown
    obtain ⟨hart, hown⟩ := hown
    obtain rfl : b = a := List.inj_on_of_nodup_map hc.artifactKey hb ha (hba.trans hart)
    rcases hp with ⟨key', _, hl, _⟩ | ⟨_, hl, _⟩ | ⟨key', _, _, hl, ho⟩
    · exact absurd hl (Territory.ne_functionLocal hown key')
    · exact absurd hl (Territory.not_global hown)
    · rw [ho, T.disjoint hl hown]

end Owners

/-! ## 4. Steps that keep the invariant -/

/-- The same artifacts, as far as their names go: no statement but the INSERT changes the
    columns that name an artifact. -/
structure SameArtifacts (t t' : Tables) : Prop where
  old : ∀ a' ∈ t'.artifacts, ∃ a ∈ t.artifacts, a'.id = a.id ∧ a'.contentSha256 = a.contentSha256
  kept : ∀ a ∈ t.artifacts, ∃ a' ∈ t'.artifacts, a'.id = a.id ∧ a'.contentSha256 = a.contentSha256

/-- The artifact's row as some call read it: the columns that no statement writes. -/
def Tables.Stores (t : Tables) (artifact : Artifact) : Prop :=
  ∃ a ∈ t.artifacts, a.id = artifact.id ∧ a.contentSha256 = artifact.contentSha256

section SameArtifacts

variable {t t' : Tables}

theorem SameArtifacts.of_eq (h : t'.artifacts = t.artifacts) : SameArtifacts t t' where
  old a' ha' := ⟨a', h ▸ ha', rfl, rfl⟩
  kept a ha := ⟨a, h ▸ ha, rfl, rfl⟩

/-- An update of artifact rows that keeps ids and hashes. -/
theorem SameArtifacts.update {p : Artifact → Bool} {g : Artifact → Artifact}
    (h : t'.artifacts = updateWhere p g t.artifacts)
    (hg : ∀ a, (g a).id = a.id ∧ (g a).contentSha256 = a.contentSha256) : SameArtifacts t t' := by
  have hcol : ∀ a, (if p a then g a else a).id = a.id ∧
      (if p a then g a else a).contentSha256 = a.contentSha256 := by
    intro a
    split
    · exact hg a
    · exact ⟨rfl, rfl⟩
  constructor
  · intro a' ha'
    rw [h] at ha'
    obtain ⟨a, ha, rfl⟩ := mem_updateWhere.mp ha'
    exact ⟨a, ha, hcol a⟩
  · intro a ha
    rw [h]
    exact ⟨_, mem_updateWhere.mpr ⟨a, ha, rfl⟩, hcol a⟩

theorem SameArtifacts.wellNamed (h : SameArtifacts t t') (ha : ∀ a ∈ t.artifacts, a.WellNamed) :
    ∀ a' ∈ t'.artifacts, a'.WellNamed := by
  intro a' ha'
  obtain ⟨a, hat, hid, hsha⟩ := h.old a' ha'
  exact ⟨by rw [hid, hsha]; exact (ha a hat).id, by rw [hsha]; exact (ha a hat).length⟩

theorem SameArtifacts.stores (h : SameArtifacts t t') {artifact : Artifact}
    (hs : t.Stores artifact) : t'.Stores artifact := by
  obtain ⟨a, ha, hid, hsha⟩ := hs
  obtain ⟨a', ha', hid', hsha'⟩ := h.kept a ha
  exact ⟨a', ha', hid'.trans hid, hsha'.trans hsha⟩

theorem Statement.sameArtifacts {s : Statement} (hs : ∀ row, s ≠ .insertArtifact row)
    (t : Tables) : SameArtifacts t (s.effect t) := by
  cases s with
  | insertArtifact row => exact absurd rfl (hs row)
  | requestFull | claimCatalog | setCatalogRun | publishArtifact | failArtifact | completeFull =>
    exact .update rfl fun _ => ⟨rfl, rfl⟩
  | _ => exact .of_eq rfl

theorem Tables.Stores.effect {artifact : Artifact} (h : t.Stores artifact) (s : Statement) :
    (s.effect t).Stores artifact := by
  by_cases hins : ∃ row, s = .insertArtifact row
  · obtain ⟨row, rfl⟩ := hins
    obtain ⟨a, ha, hcol⟩ := h
    exact ⟨a, List.mem_append_left _ ha, hcol⟩
  · exact (Statement.sameArtifacts (fun row hrow => hins ⟨row, hrow⟩) t).stores h

/-- No statement deletes an artifact or renames it. -/
theorem Tables.Stores.effects {artifact : Artifact} (h : t.Stores artifact) (ss : List Statement) :
    (Irez.effects ss t).Stores artifact := by
  induction ss generalizing t with
  | nil => exact h
  | cons s ss ih => exact ih (h.effect s)

/-- What every statement of the run keeps while the artifact is stored holds after it. -/
theorem effects_stored {artifact : Artifact} {I : Tables → Prop} {ss : List Statement} (ht : I t)
    (hst : t.Stores artifact)
    (h : ∀ s ∈ ss, ∀ t, I t → t.Stores artifact → I (s.effect t)) : I (Irez.effects ss t) :=
  (effects_invariant (I := fun t => I t ∧ t.Stores artifact) ⟨ht, hst⟩ fun s hs t h' =>
    ⟨h s hs t h'.1 h'.2, h'.2.effect s⟩).1

end SameArtifacts

section Keep

variable {T : Territory} {t t' : Tables}

/-- The invariant reads four tables, and of the artifacts the columns no statement writes. -/
theorem Sound.of_eq (h : Sound T t) (ha : ∀ a' ∈ t'.artifacts, a'.WellNamed)
    (ha' : ∀ a ∈ t.artifacts, ∃ a' ∈ t'.artifacts, a'.id = a.id ∧
      a'.contentSha256 = a.contentSha256)
    (he : t'.entities = t.entities) (hr : t'.relations = t.relations)
    (hs : t'.sourceLocations = t.sourceLocations) : Sound T t' where
  artifacts := ha
  entities := by
    rw [he]
    intro e hem
    obtain ⟨a, ham, haid, hid, hp⟩ := h.entities e hem
    obtain ⟨a', ham', haid', hsha⟩ := ha' a ham
    have hid_eq : ∀ l, entityId a' l = entityId a l := fun l => by simp only [entityId, hsha]
    refine ⟨a', ham', haid'.trans haid, hid.trans (hid_eq _).symm, ?_⟩
    rcases hp with ⟨key, hk, hl, ho⟩ | ⟨hk, hl, ho⟩ | ⟨key, hf, hg, hl, ho⟩
    · exact .function key hk hl ho
    · exact .global hk hl ho
    · exact .interior key hf hg hl (ho.trans (congrArg some (hid_eq _).symm))
  relations := by
    rw [he, hr]
    exact h.relations
  sources := by
    rw [he, hs]
    exact h.sources

/-- An update of artifact rows that keeps ids and hashes. -/
theorem Sound.updateArtifacts (h : Sound T t) {p : Artifact → Bool} {g : Artifact → Artifact}
    (hg : ∀ a, (g a).id = a.id ∧ (g a).contentSha256 = a.contentSha256)
    (ha : t'.artifacts = updateWhere p g t.artifacts) (he : t'.entities = t.entities)
    (hr : t'.relations = t.relations) (hs : t'.sourceLocations = t.sourceLocations) :
    Sound T t' := by
  have hsame : SameArtifacts t t' := .update ha hg
  exact h.of_eq (hsame.wellNamed h.artifacts) hsame.kept he hr hs

theorem Sound.sameRows (h : Sound T t) (ha : t'.artifacts = t.artifacts)
    (he : t'.entities = t.entities) (hr : t'.relations = t.relations)
    (hs : t'.sourceLocations = t.sourceLocations) : Sound T t' :=
  h.of_eq (by rw [ha]; exact h.artifacts) (fun a ham => ⟨a, ha ▸ ham, rfl, rfl⟩) he hr hs

/-- A stored artifact is a new row with a name of its own. -/
theorem Sound.insertArtifact (h : Sound T t) {a : Artifact} (ha : a.WellNamed) :
    Sound T ((Statement.insertArtifact a).effect t) := by
  refine h.of_eq (fun a' ha' => ?_) (fun a' ha' => ⟨a', List.mem_append_left _ ha', rfl, rfl⟩)
    rfl rfl rfl
  rcases List.mem_append.mp ha' with ha' | ha'
  · exact h.artifacts a' ha'
  · rw [List.mem_singleton.mp ha']
    exact ha

/-- A rewrite of entity rows that keeps everything but what they say of themselves. -/
theorem Sound.rewriteEntities (h : Sound T t) {g : Entity → Entity}
    (hg : ∀ e, (g e).id = e.id ∧ (g e).artifactId = e.artifactId ∧ (g e).functionId = e.functionId ∧
      (g e).kind = e.kind ∧ (g e).localKey = e.localKey)
    (ha : t'.artifacts = t.artifacts) (he : t'.entities = t.entities.map g)
    (hr : t'.relations = t.relations) (hs : t'.sourceLocations = t.sourceLocations) :
    Sound T t' where
  artifacts := by
    rw [ha]
    exact h.artifacts
  entities := by
    rw [he, ha]
    intro e' hem'
    obtain ⟨e, hem, rfl⟩ := List.mem_map.mp hem'
    obtain ⟨hid, haid, ho, hk, hl⟩ := hg e
    obtain ⟨a, ham, hae, hide, hp⟩ := h.entities e hem
    refine ⟨a, ham, hae.trans haid.symm, by rw [hid, hl]; exact hide, ?_⟩
    rcases hp with ⟨key, hk', hl', ho'⟩ | ⟨hk', hl', ho'⟩ | ⟨key, hf, hgl, hl', ho'⟩
    · exact .function key (hk.trans hk') (hl.trans hl') (ho.trans ho')
    · exact .global (hk.trans hk') (hl ▸ hl') (ho.trans ho')
    · exact .interior key (hk ▸ hf) (hk ▸ hgl) (hl ▸ hl') (ho.trans ho')
  relations := by
    rw [hr, he]
    intro r hrm
    obtain ⟨f, hf, hends⟩ := h.relations r hrm
    refine ⟨f, hf, fun e' hem' hend o ho => ?_⟩
    obtain ⟨e, hem, rfl⟩ := List.mem_map.mp hem'
    obtain ⟨hid, _, hoe, _, _⟩ := hg e
    exact hends e hem (by rw [← hid]; exact hend) o (hoe.symm.trans ho)
  sources := by
    rw [hs, he]
    intro s hsm
    obtain ⟨e, hem, hid, ho⟩ := h.sources s hsm
    obtain ⟨hid', _, hoe, _, _⟩ := hg e
    exact ⟨g e, List.mem_map_of_mem hem, hid'.trans hid, by rw [hoe]; exact ho⟩

theorem entityId_congr {a b : Artifact} (h : a.contentSha256 = b.contentSha256) (l : String) :
    entityId a l = entityId b l := by
  simp only [entityId, h]

theorem updateWhere_eq_map {ρ : Type} (p : ρ → Bool) (g : ρ → ρ) (t : List ρ) :
    updateWhere p g t = t.map fun r => if p r then g r else r := rfl

theorem Sound.markEntity (h : Sound T t) (state : EntityState) (id : String) :
    Sound T ((Statement.markEntity state id).effect t) := by
  refine h.rewriteEntities (g := fun e => if e.id = id then
    { e with materialization := state } else e) (fun e => ?_) rfl ?_ rfl rfl
  · split
    · exact ⟨rfl, rfl, rfl, rfl, rfl⟩
    · exact ⟨rfl, rfl, rfl, rfl, rfl⟩
  · simp [Statement.effect, updateWhere_eq_map]

/-- A new function row has no owner. -/
theorem Sound.upsertFunction (h : Sound T t) {artifact : Artifact} (hs : t.Stores artifact)
    (f : FunctionRecord) : Sound T ((Statement.upsertFunction (f.entityRow artifact)).effect t) := by
  by_cases hl : (lookup Entity.localPair (Entity.localPair (f.entityRow artifact))
      t.entities).isSome
  · refine h.rewriteEntities (g := fun e =>
      if Entity.localPair e = Entity.localPair (f.entityRow artifact) then
        Entity.recatalog (f.entityRow artifact) e else e) (fun e => ?_) rfl ?_ rfl rfl
    · split
      · exact ⟨rfl, rfl, rfl, rfl, rfl⟩
      · exact ⟨rfl, rfl, rfl, rfl, rfl⟩
    · simp [Statement.effect, upsert, hl, updateWhere_eq_map]
  · have he : ((Statement.upsertFunction (f.entityRow artifact)).effect t).entities =
        t.entities ++ [f.entityRow artifact] := by
      simp only [Statement.effect, upsert, if_neg hl]
    obtain ⟨a, ha, hid, hsha⟩ := hs
    refine ⟨h.artifacts, ?_, ?_, ?_⟩
    · rw [he]
      intro e hem
      rcases List.mem_append.mp hem with hem | hem
      · exact h.entities e hem
      · rw [List.mem_singleton.mp hem]
        exact ⟨a, ha, hid, entityId_congr hsha.symm _, .function f.key rfl rfl rfl⟩
    · rw [he]
      intro r hr
      obtain ⟨o, ho, hends⟩ := h.relations r hr
      refine ⟨o, ho, fun e hem hend o' ho' => ?_⟩
      rcases List.mem_append.mp hem with hem | hem
      · exact hends e hem hend o' ho'
      · rw [List.mem_singleton.mp hem] at ho'
        cases ho'
    · rw [he]
      intro s hsm
      obtain ⟨e, hem, hid', ho⟩ := h.sources s hsm
      exact ⟨e, List.mem_append_left _ hem, hid', ho⟩

/-- One catalog entry. -/
theorem Sound.functionStatements (h : Sound T t) {artifact : Artifact} (hs : t.Stores artifact)
    (f : FunctionRecord) : Sound T (effects (f.statements artifact) t) := by
  simp only [FunctionRecord.statements, effects_cons, effects_nil]
  refine Sound.markEntity ?_ _ _
  exact (h.upsertFunction hs f).sameRows rfl rfl rfl rfl

theorem functionStatements_artifacts (fs : List FunctionRecord) (artifact : Artifact) (t : Tables) :
    (effects (fs.flatMap (·.statements artifact)) t).artifacts = t.artifacts := by
  refine effects_frame Tables.artifacts (fun s hs t => ?_) t
  obtain ⟨f, _, hs⟩ := List.mem_flatMap.mp hs
  simp only [FunctionRecord.statements, List.mem_cons, List.not_mem_nil, or_false] at hs
  rcases hs with rfl | rfl | rfl
  · rfl
  · rfl
  · rfl

/-- **A published catalog keeps the invariant.** -/
theorem Sound.publishCatalog (h : Sound T t) {artifact : Artifact} (hs : t.Stores artifact)
    (run : String) (module : ModuleRecord) (records : List Record) (endedAt : Time) :
    Sound T (effects (publishCatalogStatements artifact run module records endedAt) t) := by
  have h1 : Sound T ((Statement.publishArtifact module ((capabilitiesRecord records).getD [])
      artifact.id).effect t) :=
    h.updateArtifacts (g := Artifact.published module ((capabilitiesRecord records).getD []))
      (fun _ => ⟨rfl, rfl⟩) rfl rfl rfl rfl
  have hs1 : ((Statement.publishArtifact module ((capabilitiesRecord records).getD [])
      artifact.id).effect t).Stores artifact := hs.effect _
  have hall : ∀ (fs : List FunctionRecord) (t : Tables), Sound T t → t.Stores artifact →
      Sound T (effects (fs.flatMap (·.statements artifact)) t) := by
    intro fs
    induction fs with
    | nil =>
      intro t ht _
      exact ht
    | cons f fs ih =>
      intro t ht hst
      rw [List.flatMap_cons, effects_append]
      refine ih _ (ht.functionStatements hst f) ?_
      have hart := functionStatements_artifacts [f] artifact t
      rw [List.flatMap_singleton] at hart
      unfold Tables.Stores
      rw [hart]
      exact hst
  unfold publishCatalogStatements
  rw [effects_append, effects_append, effects_cons, effects_nil, effects_cons, effects_nil]
  exact (hall (functionRecords records) _ h1 hs1).sameRows rfl rfl rfl rfl

theorem Sound.claimFunction (h : Sound T t) {io : Faults} {d : ClaimDraw} {target : Target}
    {db db' : Database} (ht : db.toTables = t) (hc : Irez.claimFunction io d target db = .ok db') :
    Sound T db'.toTables := by
  obtain ⟨_, _, _, _, h'⟩ := claimFunction_ok hc
  rw [h']
  exact h.sameRows (by rw [ht]) (by rw [ht]) (by rw [ht]) (by rw [ht])

theorem Sound.failFunction (h : Sound T t) {io : Faults} {target : Target}
    {run owner message : String} {endedAt : Time} {db db' : Database} (ht : db.toTables = t)
    (hc : Irez.failFunction io target run owner message endedAt db = .ok db') :
    Sound T db'.toTables := by
  rw [failFunction_ok hc]
  exact h.sameRows (by rw [ht]) (by rw [ht]) (by rw [ht]) (by rw [ht])

theorem Sound.failCatalog (h : Sound T t) {io : Faults} {artifactId run message : String}
    {endedAt : Time} {db db' : Database} (ht : db.toTables = t)
    (hc : Irez.failCatalog io artifactId run message endedAt db = .ok db') :
    Sound T db'.toTables := by
  rw [failCatalog_ok hc]
  subst ht
  exact h.updateArtifacts (g := Artifact.failed (errorJson message)) (fun _ => ⟨rfl, rfl⟩)
    rfl rfl rfl rfl

theorem Sound.claimCatalog (h : Sound T t) {io : Faults} {d : ClaimDraw} {artifact : Artifact}
    {index : IndexLevel} {db db' : Database} (ht : db.toTables = t)
    (hc : Irez.claimCatalog io d artifact index db = .ok db') : Sound T db'.toTables := by
  obtain ⟨_, _, _, _, h'⟩ := claimCatalog_ok hc
  subst ht
  have h1 : Sound T { db.toTables with
      artifacts := updateWhere (fun a => a.id = artifact.id && a.claimable d.now)
        (Artifact.claimed d.owner d.claimedAt index) db.artifacts } :=
    h.updateArtifacts (g := Artifact.claimed d.owner d.claimedAt index) (fun _ => ⟨rfl, rfl⟩)
      rfl rfl rfl rfl
  rw [h']
  exact h1.updateArtifacts (g := fun a => { a with catalogRunId := some d.runId })
    (fun _ => ⟨rfl, rfl⟩) rfl rfl rfl rfl

end Keep

end Irez
