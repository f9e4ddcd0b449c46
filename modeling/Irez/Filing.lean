/-
  File:      Irez/Filing.lean
  Subject:   Where rows of `entities` lie, whatever streams are published: their ids name
             their artifact and key, and the keys of functions belong to functions.

  Ownership.lean says the same of streams that keep to a territory. Here the streams are
  any the adapter emits, of any function under any key, so what owns an interior entity is
  left open.

  * `Filed` -- the invariant; `Filed.effects` -- statements that file their rows keep it;
  * `FromAdapter`, `Filed.publish` -- the publish of a stream of the adapter keeps it, and
    `Filed.functionId_eq` -- it names its target;
  * `Undeclared` -- the entity of a row that is no declaration's does not say it is one;
    a catalog and a publish keep it.
-/
import Irez.Leases
import Irez.Generations
import Irez.Currency

open Irez.Basis

namespace Irez

/-! ## 1. The invariant -/

/-- The row lies in the artifact under its key, and functions have the keys of functions. -/
structure Entity.FiledUnder (a : Artifact) (e : Entity) : Prop where
  artifact : a.id = e.artifactId
  id : e.id = entityId a e.localKey
  colon : ':' ∈ e.localKey.toList
  function : ∀ key, e.localKey = functionLocal key → e.kind = "function" ∧ e.functionId = none
  keyed : e.kind = "function" → ∃ key, e.localKey = functionLocal key

structure Filed (t : Tables) : Prop where
  artifacts : ∀ a ∈ t.artifacts, a.WellNamed
  entities : ∀ e ∈ t.entities, ∃ a ∈ t.artifacts, e.FiledUnder a

/-- A new row of the artifact `a`. -/
structure Entity.NewIn (a : Artifact) (e : Entity) : Prop where
  artifact : e.artifactId = a.id
  id : e.id = entityId a e.localKey
  colon : ':' ∈ e.localKey.toList
  free : e.functionId = none
  function : ∀ key, e.localKey = functionLocal key → e.kind = "function"
  keyed : e.kind = "function" → ∃ key, e.localKey = functionLocal key

/-- The statements that file their rows in the artifact `a`. -/
def Statement.Files (a : Artifact) : Statement → Prop
  | .insertArtifact row => row.WellNamed
  | .upsertFunction row => row.NewIn a
  | .upsertEntity row => row.NewIn a
  | .setOwner _ _ id => ∃ l, id = entityId a l ∧ ':' ∈ l.toList ∧ ∀ key, l ≠ functionLocal key
  | _ => True

section Filed

variable {t t' : Tables} {a : Artifact}

theorem Entity.NewIn.filed {e : Entity} (h : e.NewIn a) (hs : t.Stores a) :
    ∃ b ∈ t.artifacts, e.FiledUnder b := by
  obtain ⟨b, hb, hid, hsha⟩ := hs
  refine ⟨b, hb, hid.trans h.artifact.symm, h.id.trans (entityId_congr hsha.symm _), h.colon, ?_,
    h.keyed⟩
  intro key hl
  exact ⟨h.function key hl, h.free⟩

/-- What files a row looks at four columns, and at the owner of a function. -/
theorem Entity.FiledUnder.congr {e e' : Entity} (h : e.FiledUnder a)
    (hid : e'.id = e.id) (hart : e'.artifactId = e.artifactId) (hlocal : e'.localKey = e.localKey)
    (hkind : e'.kind = e.kind) (howner : e'.functionId = e.functionId) : e'.FiledUnder a where
  artifact := h.artifact.trans hart.symm
  id := by rw [hid, hlocal]; exact h.id
  colon := by rw [hlocal]; exact h.colon
  function key hl := by
    rw [hlocal] at hl
    rw [hkind, howner]
    exact h.function key hl
  keyed hk := by
    rw [hkind] at hk
    rw [hlocal]
    exact h.keyed hk

/-- Rows of the same artifacts. -/
theorem Filed.of_entities (h : Filed t) (ha : SameArtifacts t t')
    (he : ∀ e' ∈ t'.entities, ∃ b ∈ t.artifacts, e'.FiledUnder b) : Filed t' where
  artifacts := ha.wellNamed h.artifacts
  entities e' he' := by
    obtain ⟨b, hb, hfiled⟩ := he e' he'
    obtain ⟨b', hb', hid, hsha⟩ := ha.kept b hb
    exact ⟨b', hb', hid.trans hfiled.artifact, hfiled.id.trans (entityId_congr hsha.symm _),
      hfiled.colon, hfiled.function, hfiled.keyed⟩

/-- Two filed rows with one id are in one place. -/
theorem Filed.place (h : Filed t) {e : Entity} (he : e ∈ t.entities) {b : Artifact}
    (hb : b.WellNamed) {l : String} (hl : ':' ∈ l.toList) (hid : e.id = entityId b l) :
    e.artifactId = b.id ∧ e.localKey = l := by
  obtain ⟨c, hc, hfiled⟩ := h.entities e he
  obtain ⟨hshort, hkey⟩ := entityId_inj (h.artifacts c hc).length hb.length hfiled.colon hl
    (hfiled.id.symm.trans hid)
  refine ⟨?_, hkey⟩
  rw [← hfiled.artifact, (h.artifacts c hc).id, hb.id, hshort]

/-- The row a stored artifact's handle names. -/
theorem Filed.of_handle (h : Filed t) (hs : t.Stores a) {e : Entity} (he : e ∈ t.entities)
    {l : String} (hl : ':' ∈ l.toList) (hid : e.id = entityId a l) :
    e.artifactId = a.id ∧ e.localKey = l := by
  obtain ⟨b, hb, hbid, hsha⟩ := hs
  obtain ⟨hart, hkey⟩ := h.place he (h.artifacts b hb) hl (hid.trans (entityId_congr hsha.symm l))
  exact ⟨hart.trans hbid, hkey⟩

/-- The id of a row of a stored artifact. -/
theorem Filed.id_of (h : Filed t) (hs : t.Stores a) {e : Entity} (he : e ∈ t.entities)
    (hart : e.artifactId = a.id) : e.id = entityId a e.localKey := by
  obtain ⟨b, hb, hbid, hsha⟩ := hs
  obtain ⟨c, hc, hfiled⟩ := h.entities e he
  have hshort : shortHash c.contentSha256 = shortHash b.contentSha256 := by
    have hids : c.id = b.id := hfiled.artifact.trans (hart.trans hbid.symm)
    rw [(h.artifacts c hc).id, (h.artifacts b hb).id] at hids
    exact (String.append_right_inj _).mp hids
  rw [hfiled.id]
  unfold entityId
  rw [hshort, hsha]

/-- A function read from filed tables is named by its key. -/
theorem Filed.enter (h : Filed t) {handle : String} {refresh : Bool} {target : Target}
    (hent : Irez.enter t handle refresh = .ok (.analyse target)) :
    t.Stores target.artifact ∧ target.Named := by
  obtain ⟨hfn, _, hart⟩ := enter_analyse hent
  obtain ⟨hmem, hkind⟩ := Option.filter_eq_some_iff.mp hfn
  obtain ⟨b, hb, hfiled⟩ := h.entities _ (mem_of_lookup hmem)
  have hst : t.Stores target.artifact := ⟨_, mem_of_lookup hart, rfl, rfl⟩
  have haid : target.artifact.id = target.function.artifactId := key_of_lookup hart
  obtain ⟨key, hkey⟩ := hfiled.keyed (of_decide_eq_true hkind)
  refine ⟨hst, ?_⟩
  unfold Target.Named Target.handle
  rw [Target.key_of_functionLocal hkey, ← hkey]
  exact h.id_of hst (mem_of_lookup hmem) haid.symm

/-! ## 2. Statements -/

theorem Filed.upsert (h : Filed t) (hs : t.Stores a) {g : Entity → Entity → Entity} {row : Entity}
    (hrow : row.NewIn a) (hg : ∀ r, (g row r).id = r.id ∧ (g row r).artifactId = r.artifactId ∧
      (g row r).localKey = r.localKey ∧ (g row r).kind = r.kind ∧ (g row r).functionId = r.functionId) :
    Filed { t with entities := Basis.upsert Entity.localPair g row t.entities } := by
  refine h.of_entities (.of_eq rfl) ?_
  show ∀ e ∈ upsertAll Entity.localPair g [row] t.entities, ∃ b ∈ t.artifacts, e.FiledUnder b
  refine forall_upsertAll h.entities ?_ ?_
  · intro new hnew
    rw [List.mem_singleton.mp hnew]
    exact hrow.filed hs
  · intro new hnew r hr
    rw [List.mem_singleton.mp hnew]
    obtain ⟨b, hb, hfiled⟩ := hr
    obtain ⟨h1, h2, h3, h4, h5⟩ := hg r
    exact ⟨b, hb, hfiled.congr h1 h2 h3 h4 h5⟩

theorem Filed.insertArtifact (h : Filed t) {row : Artifact} (hrow : row.WellNamed) :
    Filed ((Statement.insertArtifact row).effect t) where
  artifacts b hb := by
    rcases List.mem_append.mp hb with hb | hb
    · exact h.artifacts b hb
    · rw [List.mem_singleton.mp hb]
      exact hrow
  entities e he := by
    obtain ⟨b, hb, hfiled⟩ := h.entities e he
    exact ⟨b, List.mem_append_left _ hb, hfiled⟩

/-- **One statement keeps the rows filed.** -/
theorem Filed.effect (h : Filed t) (hs : t.Stores a) {s : Statement} (hf : s.Files a) :
    Filed (s.effect t) := by
  cases s with
  | insertArtifact row => exact h.insertArtifact hf
  | upsertFunction row => exact h.upsert hs hf fun _ => ⟨rfl, rfl, rfl, rfl, rfl⟩
  | upsertEntity row => exact h.upsert hs hf fun _ => ⟨rfl, rfl, rfl, rfl, rfl⟩
  | markEntity state id =>
    refine h.of_entities (.of_eq rfl) fun e' he' => ?_
    obtain ⟨e, he, rfl⟩ := mem_updateWhere.mp he'
    obtain ⟨b, hb, hfiled⟩ := h.entities e he
    refine ⟨b, hb, ?_⟩
    split
    · exact hfiled.congr rfl rfl rfl rfl rfl
    · exact hfiled
  | setOwner functionId blockId id =>
    obtain ⟨l, rfl, hl, hno⟩ := hf
    refine h.of_entities (.of_eq rfl) fun e' he' => ?_
    obtain ⟨e, he, rfl⟩ := mem_updateWhere.mp he'
    obtain ⟨b, hb, hfiled⟩ := h.entities e he
    refine ⟨b, hb, ?_⟩
    split
    · -- the row is no function's: its key would be the one the statement names
      rename_i hid
      refine ⟨hfiled.artifact, hfiled.id, hfiled.colon, fun key hkey => ?_, hfiled.keyed⟩
      have hplace := h.of_handle hs he hl (of_decide_eq_true hid)
      exact absurd (hplace.2.symm.trans hkey) (hno key)
    · exact hfiled
  | deleteEntities functionId =>
    refine h.of_entities (.of_eq rfl) fun e he => ?_
    exact h.entities e (mem_deleteWhere.mp he).1
  | _ =>
    exact h.of_entities (Statement.sameArtifacts (fun _ => Statement.noConfusion) t) h.entities

/-- **A run of statements keeps the rows filed.** -/
theorem Filed.effects (h : Filed t) (hs : t.Stores a) {ss : List Statement}
    (hf : ∀ s ∈ ss, s.Files a) : Filed (Irez.effects ss t) :=
  effects_stored h hs fun s hmem _ h hs => h.effect hs (hf s hmem)

/-! ## 3. Catalogs and streams -/

theorem FunctionRecord.newIn (f : FunctionRecord) (a : Artifact) : (f.entityRow a).NewIn a where
  artifact := rfl
  id := rfl
  colon := colon_mem_functionLocal f.key
  free := rfl
  function _ _ := rfl
  keyed _ := ⟨f.key, rfl⟩

theorem publishCatalogStatements_files (a : Artifact) (run : String) (module : ModuleRecord)
    (records : List Record) (endedAt : Time) :
    ∀ s ∈ publishCatalogStatements a run module records endedAt, s.Files a := by
  intro s hs
  unfold publishCatalogStatements at hs
  rw [List.mem_append, List.mem_append, List.mem_singleton, List.mem_singleton] at hs
  rcases hs with (rfl | hs) | rfl
  · trivial
  · obtain ⟨f, _, hs⟩ := List.mem_flatMap.mp hs
    simp only [FunctionRecord.statements, List.mem_cons, List.not_mem_nil, or_false] at hs
    rcases hs with rfl | rfl | rfl
    · exact f.newIn a
    · trivial
    · trivial
  · trivial

/-- A stream the adapter emits, of some module under some key. -/
def FromAdapter (records : List Record) : Prop := ∃ pd M key, records = functionGraph pd M key

/-- The entity records of such a stream: keys of functions are functions', without
    attributes, and keys of interior entities are no functions'. -/
structure EntityRecord.Sorted (e : EntityRecord) : Prop where
  colon : ':' ∈ e.localKey.toList
  function : ∀ key, e.localKey = functionLocal key → e.kind = "function" ∧ e.attributes = []
  keyed : e.kind = "function" → ∃ key, e.localKey = functionLocal key
  interior : e.interior = true → ∀ key, e.localKey ≠ functionLocal key

theorem functionGraph_attributes {pd : Function → PostDominatorTree} {M : Module} {key : String}
    {n : Nat} {F : Function} (h : selectFunction key 0 M.functions = some (n, F)) {e : EntityRecord}
    (he : .entity e ∈ functionGraph pd M key) (hk : e.kind = "function") : e.attributes = [] := by
  rw [functionGraph_eq h] at he
  cases Selected.emitted_of_mem_graph he (fun _ => Record.noConfusion) with
  | entity hb =>
    unfold Selected.bodyEntities at hb
    simp only [List.cons_append, List.mem_cons, List.mem_append, List.mem_map,
      List.mem_flatMap] at hb
    rcases hb with rfl | ⟨⟨A, i⟩, _, rfl⟩ | ⟨⟨B, b, first⟩, _, hb⟩
    · rfl
    · rfl
    · unfold Selected.blockEntities at hb
      rcases List.mem_cons.mp hb with rfl | hb
      · rfl
      · obtain ⟨⟨I, i⟩, _, rfl⟩ := List.mem_map.mp hb
        exact absurd hk (show "instruction" ≠ "function" by decide)
  | operand V c => rfl

theorem FromAdapter.sorted {records : List Record} (h : FromAdapter records) {e : EntityRecord}
    (he : e ∈ entityRecords records) : e.Sorted := by
  obtain ⟨pd, M, key, rfl⟩ := h
  have hmem := mem_entityRecords.mp he
  cases hsel : selectFunction key 0 M.functions with
  | none =>
    unfold functionGraph at hmem
    rw [hsel] at hmem
    simp [moduleHeader] at hmem
  | some selected =>
    have hscoped := functionGraph_scoped hsel hmem
    refine ⟨hscoped.colon_mem, fun key' hl => ?_, fun hk => ?_, fun hin key' hl => ?_⟩
    · have hk : e.kind = "function" := by
        rcases hscoped with ⟨hk, _⟩ | ⟨_, hg⟩ | ⟨_, _, hs⟩
        · exact hk
        · exact absurd hl (hg.ne_functionLocal key')
        · exact absurd hl hs.ne_functionLocal
      exact ⟨hk, functionGraph_attributes hsel hmem hk⟩
    · rcases hscoped with ⟨_, hl⟩ | ⟨hg, _⟩ | ⟨hf, _, _⟩
      · exact ⟨_, hl⟩
      · rw [hk] at hg
        exact absurd hg (by decide)
      · exact absurd hk hf
    · rcases hscoped with ⟨hk, _⟩ | ⟨_, hg⟩ | ⟨_, _, hs⟩
      · simp [EntityRecord.interior, hk] at hin
      · exact absurd hl (hg.ne_functionLocal key')
      · exact absurd hl hs.ne_functionLocal

namespace Publish

variable {p : Publish}

theorem replaceStatements_files (hp : ∀ e ∈ p.entities, e.Sorted) :
    ∀ s ∈ replaceStatements p.target p.entities, s.Files p.target.artifact := by
  intro s hs
  unfold replaceStatements at hs
  simp only [List.mem_append, List.mem_map, List.mem_cons, List.not_mem_nil, or_false] at hs
  rcases hs with (rfl | rfl | rfl) | ⟨e, he, rfl⟩
  · trivial
  · trivial
  · trivial
  · exact ⟨rfl, rfl, (hp e he).colon, rfl, fun key hl => ((hp e he).function key hl).1,
      (hp e he).keyed⟩

theorem writeStatements_files (hp : ∀ e ∈ p.entities, e.Sorted) (t : Tables) :
    ∀ s ∈ p.writeStatements (p.localIds t), s.Files p.target.artifact := by
  intro s hs
  unfold writeStatements ownerStatements at hs
  simp only [List.mem_append, List.mem_map, List.mem_cons, List.not_mem_nil, or_false] at hs
  rcases hs with (((((⟨e, he, rfl⟩ | ⟨r, _, rfl⟩) | ⟨q, _, rfl⟩) | rfl | rfl) | ⟨c, _, rfl⟩) |
    rfl | rfl)
  · obtain ⟨he, hin⟩ := List.mem_filter.mp he
    rw [ids_declared p t he]
    exact ⟨e.localKey, rfl, (hp e he).colon, (hp e he).interior hin⟩
  all_goals trivial

/-- **A publish keeps the rows filed.** -/
theorem exec_filed {io : Faults} {db db' : Database} (h : Filed db.toTables)
    (hs : db.Stores p.target.artifact) (hp : ∀ e ∈ p.entities, e.Sorted)
    (he : p.exec io db = .ok db') : Filed (p.replaced db.toTables) ∧ Filed db'.toTables := by
  obtain ⟨_, _, _, _, _, ht⟩ := Publish.exec_ok he
  have hfirst : Filed (p.replaced db.toTables) := h.effects hs (replaceStatements_files hp)
  refine ⟨hfirst, ?_⟩
  rw [ht]
  exact hfirst.effects (hs.effects _) (writeStatements_files hp _)

/-- **The function named by a publish is its target**, whatever the stream declares. -/
theorem functionId_of_filed {t : Tables} (h : Filed (p.replaced t))
    (hs : t.Stores p.target.artifact) (hn : p.target.Named) :
    p.functionId (p.localIds (p.replaced t)) = p.target.handle := by
  unfold functionId
  cases hi : p.localIds (p.replaced t) ("function:" ++ p.target.key) with
  | none => rfl
  | some i =>
    unfold localIds localToId at hi
    split at hi
    · rw [← Option.some.inj hi]
      exact hn.symm
    · split at hi
      · obtain ⟨r, hr, rfl⟩ := Option.map_eq_some_iff.mp hi
        have hst : (p.replaced t).Stores p.target.artifact := hs.effects _
        have hr : lookup Entity.localPair (p.target.artifact.id, "function:" ++ p.target.key)
            (p.replaced t).entities = some r := hr
        have hpair : r.localPair = (p.target.artifact.id, "function:" ++ p.target.key) :=
          key_of_lookup hr
        obtain ⟨hart, hlocal⟩ := Prod.mk.inj hpair
        refine (h.id_of hst (mem_of_lookup hr) hart).trans ?_
        rw [hlocal]
        exact hn.symm
      · cases hi

end Publish

/-! ## 4. What entities say of declarations -/

/-- The entity of a row that is no declaration's does not say it is one. -/
def Undeclared (t : Tables) : Prop :=
  ∀ m ∈ t.materializations, ∀ e ∈ t.entities, e.id = m.functionId →
    m.status ≠ .declarationOnly → e.declared = false

/-- Rows that were no declaration's before, and entities that say no more than before. -/
theorem Undeclared.of_le (h : Undeclared t)
    (hm : ∀ m' ∈ t'.materializations, m'.status ≠ .declarationOnly →
      ∃ m ∈ t.materializations, m.functionId = m'.functionId ∧ m.status ≠ .declarationOnly)
    (he : ∀ e' ∈ t'.entities, ∀ m' ∈ t'.materializations, e'.id = m'.functionId →
      e'.declared = true → ∃ e ∈ t.entities, e.id = e'.id ∧ e.declared = true) : Undeclared t' := by
  intro m' hm' e' he' hid hst
  obtain ⟨m, hmt, hmid, hmst⟩ := hm m' hm' hst
  cases hd : e'.declared with
  | false => rfl
  | true =>
    obtain ⟨e, het, heid, hed⟩ := he e' he' m' hm' hid hd
    have := h m hmt e het (heid.trans (hid.trans hmid.symm)) hmst
    rw [hed] at this
    cases this

/-- A catalog entry's row is a declaration's exactly where its entity says so. -/
theorem FunctionRecord.declared_entityRow (f : FunctionRecord) (a : Artifact) :
    (f.entityRow a).declared = f.declaration := by
  unfold Entity.declared entityRow attributes
  cases f.declaration <;> simp

theorem FunctionRecord.status_materializationRow (f : FunctionRecord) (a : Artifact) :
    (f.materializationRow a).status ≠ .declarationOnly ↔ f.declaration = false := by
  unfold materializationRow
  cases f.declaration <;> simp

/-- **One catalog entry**: the row and the entity are written together. -/
theorem Undeclared.functionStatements (h : Undeclared t) (hfiled : Filed t) (hroot : Rooted t)
    (hs : t.Stores a) (f : FunctionRecord) : Undeclared (Irez.effects (f.statements a) t) := by
  obtain ⟨b, hb, hbid, hsha⟩ := id hs
  have hhandle : f.handle a = entityId b (functionLocal f.key) := entityId_congr hsha.symm _
  intro m hm e he hid hst
  -- the row of the entity, before `markEntity`
  obtain ⟨e₀, he₀, hattr, hid₀⟩ : ∃ e₀ ∈ upsertAll Entity.localPair Entity.recatalog
      [f.entityRow a] t.entities, e₀.attributes = e.attributes ∧ e₀.id = e.id := by
    obtain ⟨e₀, he₀, rfl⟩ := mem_updateWhere.mp he
    refine ⟨e₀, he₀, ?_⟩
    split
    · exact ⟨rfl, rfl⟩
    · exact ⟨rfl, rfl⟩
  have hdecl : e.declared = e₀.declared := by
    unfold Entity.declared
    rw [hattr]
  rw [hdecl]
  rw [← hid₀] at hid
  have hm : m ∈ upsertAll Materialization.pair Materialization.recatalog [f.materializationRow a]
      t.materializations := hm
  have hkeepM : ∀ n r, Materialization.pair (Materialization.recatalog n r) =
      Materialization.pair r := fun _ _ => rfl
  have hkeepE : ∀ n r, Entity.localPair (Entity.recatalog n r) = Entity.localPair r :=
    fun _ _ => rfl
  rcases of_mem_upsertAll hkeepM hm with ⟨hmt, hmne⟩ | ⟨new, hnew, hpair, hrow⟩
  · rcases of_mem_upsertAll hkeepE he₀ with ⟨het, _⟩ | ⟨new, hnew, hpair, hrow⟩
    · exact h m hmt e₀ het hid hst
    · -- the entity is the entry's and the row is not: the row would lie in its artifact
      rw [List.mem_singleton.mp hnew] at hpair hrow
      exfalso
      have hle : e₀.id = entityId b (functionLocal f.key) := by
        obtain ⟨hart, hlocal⟩ := Prod.mk.inj hpair
        have hfiled₁ : Filed ((Statement.upsertFunction (f.entityRow a)).effect t) :=
          hfiled.effect hs (f.newIn a)
        rw [hfiled₁.id_of (hs.effect _) he₀ hart.symm, ← hlocal]
        exact hhandle
      obtain ⟨c, hc, hcid, key, hkey⟩ := hroot.materializations m hmt
      obtain ⟨hshort, hlocal⟩ := entityId_inj (hfiled.artifacts b hb).length
        (hfiled.artifacts c hc).length (colon_mem_functionLocal _) (colon_mem_functionLocal _)
        (hle.symm.trans (hid.trans hkey))
      have hart : m.artifactId = a.id := by
        rw [← hcid, ← hbid, (hfiled.artifacts c hc).id, (hfiled.artifacts b hb).id, hshort]
      refine hmne _ List.mem_cons_self (Prod.ext hart.symm ?_)
      show f.handle a = m.functionId
      rw [hhandle, hkey, functionLocal_inj hlocal]
      unfold entityId
      rw [hshort]
  · rw [List.mem_singleton.mp hnew] at hpair hrow
    obtain ⟨_, hmid⟩ := Prod.mk.inj hpair
    have hstatus : f.declaration = false := by
      refine (f.status_materializationRow a).mp ?_
      rcases hrow with rfl | ⟨m₁, _, rfl⟩
      · exact hst
      · exact hst
    rcases of_mem_upsertAll hkeepE he₀ with ⟨het, hene⟩ | ⟨new, hnew, _, hrow⟩
    · -- the row is the entry's and the entity is not: its id would be the entry's handle
      exfalso
      have hle : e₀.id = entityId b (functionLocal f.key) := by
        rw [hid, ← hmid]
        exact hhandle
      obtain ⟨hart, hlocal⟩ := hfiled.place het (hfiled.artifacts b hb) (colon_mem_functionLocal _) hle
      exact hene _ List.mem_cons_self (Prod.ext (hbid.symm.trans hart.symm) hlocal.symm)
    · rw [List.mem_singleton.mp hnew] at hrow
      have hdeclared : e₀.declared = (f.entityRow a).declared := by
        rcases hrow with rfl | ⟨e₁, _, rfl⟩
        · rfl
        · rfl
      rw [hdeclared, f.declared_entityRow, hstatus]

theorem FunctionRecord.statements_files (f : FunctionRecord) (a : Artifact) :
    ∀ s ∈ f.statements a, s.Files a ∧ s.Roots a := by
  intro s hs
  simp only [FunctionRecord.statements, List.mem_cons, List.not_mem_nil, or_false] at hs
  rcases hs with rfl | rfl | rfl
  · exact ⟨f.newIn a, trivial⟩
  · exact ⟨trivial, rfl, f.key, rfl⟩
  · exact ⟨trivial, trivial⟩

/-- The entries of a catalog, one after the other. -/
theorem Undeclared.catalog (h : Undeclared t) (hfiled : Filed t) (hroot : Rooted t)
    (hs : t.Stores a) (fs : List FunctionRecord) :
    Undeclared (Irez.effects (fs.flatMap (·.statements a)) t) := by
  induction fs generalizing t with
  | nil => exact h
  | cons f fs ih =>
    rw [List.flatMap_cons, effects_append]
    exact ih (h.functionStatements hfiled hroot hs f)
      (hfiled.effects hs fun s hs' => (f.statements_files a s hs').1)
      (hroot.effects hs fun s hs' => (f.statements_files a s hs').2) (hs.effects _)

/-- **A published catalog keeps what entities say.** -/
theorem Undeclared.publishCatalog {io : Faults} {run : String} {module : ModuleRecord}
    {records : List Record} {endedAt : Time} {db db' : Database} (h : Undeclared db.toTables)
    (hfiled : Filed db.toTables) (hroot : Rooted db.toTables) (hs : db.Stores a)
    (he : Irez.publishCatalog io a run module records endedAt db = .ok db') :
    Undeclared db'.toTables := by
  have ht := transaction_ok he
  unfold publishCatalogStatements at ht
  rw [effects_append, effects_append, effects_cons, effects_nil, effects_cons, effects_nil] at ht
  have hfirst : ∀ s ∈ [Statement.publishArtifact module ((capabilitiesRecord records).getD []) a.id],
      s.Files a ∧ s.Roots a := by
    intro s hs'
    rw [List.mem_singleton.mp hs']
    exact ⟨trivial, trivial⟩
  have hloop := Undeclared.catalog (t := (Statement.publishArtifact module
      ((capabilitiesRecord records).getD []) a.id).effect db.toTables) h
    (hfiled.effects hs fun s hs' => (hfirst s hs').1)
    (hroot.effects hs fun s hs' => (hfirst s hs').2) (hs.effect _) (functionRecords records)
  rw [ht]
  exact hloop

/-- The columns of `entities` that the writing half of a publish leaves. -/
def Tables.faces (t : Tables) : List (String × String × Attributes) :=
  t.entities.map fun e => (e.id, e.localKey, e.attributes)

theorem Publish.writeStatements_faces (p : Publish) (ids : String → Option String) (t : Tables) :
    (Irez.effects (p.writeStatements ids) t).faces = t.faces := by
  refine effects_frame Tables.faces (fun s hs t => ?_) t
  unfold writeStatements ownerStatements at hs
  simp only [List.mem_append, List.mem_map, List.mem_cons, List.not_mem_nil, or_false] at hs
  rcases hs with (((((⟨e, he, rfl⟩ | ⟨r, _, rfl⟩) | ⟨q, _, rfl⟩) | rfl | rfl) | ⟨c, _, rfl⟩) |
    rfl | rfl)
  · show (updateWhere _ _ t.entities).map _ = t.entities.map _
    refine map_updateWhere ?_ t.entities
    intro x
    rfl
  · rfl
  · rfl
  · show (updateWhere _ _ t.entities).map _ = t.entities.map _
    refine map_updateWhere ?_ t.entities
    intro x
    rfl
  all_goals rfl

/-- **A publish of a stream of the adapter lets no function become a declaration.** -/
theorem Undeclared.publish {p : Publish} {io : Faults} {db db' : Database}
    (h : Undeclared db.toTables) (hfiled : Filed db.toTables) (hroot : Rooted db.toTables)
    (hwell : WellClaimed db.toTables) (hs : db.Stores p.target.artifact)
    (hp : ∀ e ∈ p.entities, e.Sorted) (he : p.exec io db = .ok db') : Undeclared db'.toTables := by
  obtain ⟨_, hmats, _⟩ := Publish.exec_tested he
  obtain ⟨hfirst, _⟩ := Publish.exec_filed hfiled hs hp he
  obtain ⟨_, _, _, _, _, ht⟩ := Publish.exec_ok he
  refine h.of_le (fun m' hm' hst => ?_) fun e' he' m' hm' hid hd => ?_
  · rw [hmats] at hm'
    obtain ⟨m, hm, rfl⟩ := mem_updateWhere.mp hm'
    refine ⟨m, hm, ?_⟩
    split
    · -- the row was claimed, so it was no declaration's
      rename_i hc
      rw [Bool.and_eq_true, decide_eq_true_eq, decide_eq_true_eq] at hc
      have hstatus := (hwell.materializations m hm).1.mpr (by rw [hc.2]; rfl)
      exact ⟨rfl, by rw [hstatus]; decide⟩
    · rename_i hc
      rw [if_neg hc] at hst
      exact ⟨rfl, hst⟩
  · -- the entity is a function's: a stream gives such an entity no attributes
    have hface : (e'.id, e'.localKey, e'.attributes) ∈ (p.replaced db.toTables).faces := by
      have hfaces : db'.toTables.faces = (p.replaced db.toTables).faces := by
        rw [ht]
        exact p.writeStatements_faces _ _
      rw [← hfaces]
      exact List.mem_map_of_mem he'
    obtain ⟨e, hmem, hcols⟩ := List.mem_map.mp hface
    simp only [Prod.mk.injEq] at hcols
    obtain ⟨heid, hlocal, hattr⟩ := hcols
    have hdecl : e.declared = true := by
      unfold Entity.declared
      rw [hattr]
      exact hd
    rw [hmats] at hm'
    obtain ⟨m, hm, rfl⟩ := mem_updateWhere.mp hm'
    obtain ⟨a, ha, _, key, hkey⟩ := hroot.materializations m hm
    have hid : e.id = entityId a (functionLocal key) := by
      rw [heid, hid, ← hkey]
      split
      · rfl
      · rfl
    have ha' : (p.replaced db.toTables).Stores a := Tables.Stores.effects ⟨a, ha, rfl, rfl⟩ _
    have hkeyed := (hfirst.of_handle ha' hmem (colon_mem_functionLocal key) hid).2
    rw [show (p.replaced db.toTables).entities = _ from
      congrArg Tables.entities (p.replaceStatements_effect db.toTables)] at hmem
    have hkeep : ∀ n r, Entity.localPair (Entity.restructure n r) = Entity.localPair r :=
      fun _ _ => rfl
    rcases of_mem_upsertAll hkeep hmem with ⟨hkept, _⟩ | ⟨new, hnew, hpair, hrow⟩
    · exact ⟨e, (mem_deleteWhere.mp hkept).1, heid, hdecl⟩
    · exfalso
      obtain ⟨record, hrec, rfl⟩ := List.mem_map.mp hnew
      have hl : record.localKey = functionLocal key := (Prod.mk.inj hpair).2.trans hkeyed
      have hnil : e.attributes = [] := by
        rcases hrow with rfl | ⟨r₀, _, rfl⟩
        · exact ((hp record hrec).function key hl).2
        · exact ((hp record hrec).function key hl).2
      unfold Entity.declared at hdecl
      rw [hnil] at hdecl
      cases hdecl

end Filed

end Irez
