/-
  File:      Irez/CatalogFacts.lean
  Subject:   What the catalog says of a function after any sequence of successful
             `materialize` calls: which columns of its row stay, and when.

  The catalog and `materialize` upsert one row with different column lists: both write
  `llvm_type` and `attributes_json`, only the catalog writes `name`, and neither changes
  `ordinal`. The records of `function_graph` carry no attributes.

  * `Numbered` -- the rows under the keys of functions have their ordinals, in every state
    reached, whatever the stored files hold (`Library.Reachable.numbered`);
  * `Filed.row_effects` -- such a row along a run of statements; `Call.row`, what one call
    leaves of it;
  * `functionsQuery` -- `Service::functions`;
  * `catalog_facts_kept` -- the facts stay exactly as long as no call analyses the function.
-/
import Irez.History

open Irez.Basis

namespace Irez

/-! ## 1. Calls on files that hold anything -/

/-- One call of a single process; each adapter call reads what its file holds then. -/
inductive Library.Step {β : Type} (L : Library β) : Database → Database → Prop where
  | store {io : Faults} {a : Artifact} {db db' : Database} (ha : a.WellNamed)
      (h : exec io (.insertArtifact a) db = .ok db') : Library.Step L db db'
  | mark {io : Faults} {s : Statement} {db db' : Database} {id : String}
      (hs : s = .requestFull id ∨ s = .completeFull id) (h : exec io s db = .ok db') :
      Library.Step L db db'
  | catalog {env : Environment} {graph : String → Outcome} {d : CatalogDraw} {a : Artifact}
      {index : IndexLevel} {db db' : Database} {result : Except Thrown Unit} (ha : db.Stores a)
      (hg : ∀ path records, graph path = .ok records → ∃ bytes, records = L.catalog bytes)
      (h : refreshCatalog env graph d a index db = (db', result)) : Library.Step L db db'
  | materialize {env : Environment} {graph : String → String → Outcome} {d : MaterializeDraw}
      {handle : String} {refresh : Bool} {db db' : Database} {result : Except Thrown Materialized}
      (hg : ∀ path key records, graph path key = .ok records →
        ∃ bytes, records = L.functionGraph bytes key)
      (h : materialize env graph d handle refresh db = (db', result)) : Library.Step L db db'

/-- The states after any calls, from an initialized state. -/
def Library.Reachable {β : Type} (L : Library β) (db : Database) : Prop :=
  ∃ db₀ : Database, db₀.Fresh ∧ Relation.ReflTransGen L.Step db₀ db

/-! ## 2. The rows of functions -/

/-- Rows are filed, and a row under the key of a function has its number as ordinal. -/
structure Numbered (t : Tables) : Prop where
  filed : Filed t
  ordinals : ∀ x ∈ t.entities, ∀ K, x.localKey = functionLocal (functionKey K) →
    x.ordinal = some (K : Int)

/-- The statements that number the rows they add. -/
def Statement.Numbers : Statement → Prop
  | .upsertFunction row => ∀ K, row.localKey = functionLocal (functionKey K) → row.ordinal = some (K : Int)
  | .upsertEntity row => ∀ K, row.localKey = functionLocal (functionKey K) → row.ordinal = some (K : Int)
  | _ => True

/-- Another state of one row: the columns that say which row it is, its owner and its number. -/
structure Entity.SameSeat (x y : Entity) : Prop where
  id : y.id = x.id
  artifact : y.artifactId = x.artifactId
  kind : y.kind = x.kind
  key : y.localKey = x.localKey
  owner : y.functionId = x.functionId
  ordinal : y.ordinal = x.ordinal

theorem Entity.SameSeat.refl (x : Entity) : x.SameSeat x := ⟨rfl, rfl, rfl, rfl, rfl, rfl⟩

theorem Entity.SameSeat.trans {x y z : Entity} (h : x.SameSeat y) (h' : y.SameSeat z) :
    x.SameSeat z where
  id := h'.id.trans h.id
  artifact := h'.artifact.trans h.artifact
  kind := h'.kind.trans h.kind
  key := h'.key.trans h.key
  owner := h'.owner.trans h.owner
  ordinal := h'.ordinal.trans h.ordinal

/-- A row after an upsert: a row there was, a row rewritten, or the new one. -/
theorem of_mem_upsert {ρ κ : Type} [DecidableEq κ] {key : ρ → κ} {g : ρ → ρ → ρ} {new r : ρ}
    {rows : List ρ} (h : r ∈ upsert key g new rows) :
    r ∈ rows ∨ (∃ old ∈ rows, key old = key new ∧ r = g new old) ∨ r = new := by
  unfold upsert at h
  split at h
  · obtain ⟨old, hold, rfl⟩ := mem_updateWhere.mp h
    split
    · rename_i hk
      exact .inr (.inl ⟨old, hold, of_decide_eq_true hk, rfl⟩)
    · exact .inl hold
  · rcases List.mem_append.mp h with h | h
    · exact .inl h
    · exact .inr (.inr (List.mem_singleton.mp h))

/-- What becomes of a row in an upsert. -/
theorem mem_upsert_of_mem {ρ κ : Type} [DecidableEq κ] {key : ρ → κ} {g : ρ → ρ → ρ} {new r : ρ}
    {rows : List ρ} (h : r ∈ rows) :
    (if key r = key new then g new r else r) ∈ upsert key g new rows := by
  unfold upsert
  split
  · refine mem_updateWhere.mpr ⟨r, h, ?_⟩
    simp
  · rename_i hnone
    have hne : key r ≠ key new := by
      intro he
      refine hnone ?_
      rw [Option.isSome_iff_ne_none]
      intro hn
      exact lookup_eq_none_iff.mp hn r h he
    rw [if_neg hne]
    exact List.mem_append_left _ h

section Statements

variable {t : Tables} {a : Artifact} {s : Statement}

/-- **One statement keeps rows and numbers.** -/
theorem Numbered.effect (h : Numbered t) (hs : t.Stores a) (hf : s.Files a) (hn : s.Numbers) :
    Numbered (s.effect t) where
  filed := h.filed.effect hs hf
  ordinals y hy K hK := by
    cases s with
    | upsertFunction row =>
      rcases of_mem_upsert hy with hold | ⟨old, hold, _, rfl⟩ | rfl
      · exact h.ordinals y hold K hK
      · exact h.ordinals old hold K hK
      · exact hn K hK
    | upsertEntity row =>
      rcases of_mem_upsert hy with hold | ⟨old, hold, _, rfl⟩ | rfl
      · exact h.ordinals y hold K hK
      · exact h.ordinals old hold K hK
      · exact hn K hK
    | markEntity state id =>
      obtain ⟨x, hx, rfl⟩ := mem_updateWhere.mp hy
      split at hK
      · rw [if_pos ‹_›]
        exact h.ordinals x hx K hK
      · rw [if_neg ‹_›]
        exact h.ordinals x hx K hK
    | setOwner f b id =>
      obtain ⟨x, hx, rfl⟩ := mem_updateWhere.mp hy
      split at hK
      · rw [if_pos ‹_›]
        exact h.ordinals x hx K hK
      · rw [if_neg ‹_›]
        exact h.ordinals x hx K hK
    | deleteEntities f => exact h.ordinals y (mem_deleteWhere.mp hy).1 K hK
    | _ => exact h.ordinals y hy K hK

theorem Numbered.effects (h : Numbered t) (hs : t.Stores a) {ss : List Statement}
    (hf : ∀ s ∈ ss, s.Files a) (hn : ∀ s ∈ ss, s.Numbers) : Numbered (Irez.effects ss t) :=
  effects_stored h hs fun s hmem _ h hs => h.effect hs (hf s hmem) (hn s hmem)

/-- What the catalog and `materialize` both write. -/
def Entity.facts (x : Entity) : Option String × Attributes := (x.llvmType, x.attributes)

/-- **The row of a function after a statement that is no catalog entry of its own**: it stands
    where it stood under its name, and its facts are those of the record upserted to it, if any. -/
theorem Filed.row_effect (h : Filed t) (hs : t.Stores a) (hf : s.Files a) {x : Entity}
    (hcat : ∀ row, s = .upsertFunction row → row.localPair ≠ x.localPair) (hx : x ∈ t.entities)
    {key : String} (hk : x.localKey = functionLocal key) :
    ∃ y ∈ (s.effect t).entities, x.SameSeat y ∧ y.name = x.name ∧
      (y.facts = x.facts ∧ (∀ row, s = .upsertEntity row → row.localPair ≠ x.localPair) ∨
        ∃ row, s = .upsertEntity row ∧ row.localPair = x.localPair ∧ y.facts = row.facts) := by
  obtain ⟨b, _, hfiled⟩ := h.entities x hx
  have hfree := (hfiled.function key hk).2
  cases s with
  | upsertFunction row =>
    have hy : (if x.localPair = row.localPair then Entity.recatalog row x else x) ∈
        ((Statement.upsertFunction row).effect t).entities := mem_upsert_of_mem hx
    rw [if_neg (hcat row rfl).symm] at hy
    exact ⟨x, hy, .refl x, rfl, .inl ⟨rfl, fun _ => Statement.noConfusion⟩⟩
  | upsertEntity row =>
    have hy : (if x.localPair = row.localPair then Entity.restructure row x else x) ∈
        ((Statement.upsertEntity row).effect t).entities := mem_upsert_of_mem hx
    by_cases hpair : x.localPair = row.localPair
    · rw [if_pos hpair] at hy
      exact ⟨_, hy, ⟨rfl, rfl, rfl, rfl, rfl, rfl⟩, rfl, .inr ⟨row, rfl, hpair.symm, rfl⟩⟩
    · rw [if_neg hpair] at hy
      refine ⟨x, hy, .refl x, rfl, .inl ⟨rfl, ?_⟩⟩
      intro row' hrow
      cases hrow
      exact fun he => hpair he.symm
  | setOwner f blockId id =>
    obtain ⟨l, rfl, hl, hno⟩ := hf
    refine ⟨x, mem_updateWhere.mpr ⟨x, hx, (if_neg ?_).symm⟩, .refl x, rfl,
      .inl ⟨rfl, fun _ => Statement.noConfusion⟩⟩
    intro hid
    exact hno key ((h.of_handle hs hx hl (of_decide_eq_true hid)).2.symm.trans hk)
  | markEntity state id =>
    refine ⟨_, mem_updateWhere.mpr ⟨x, hx, rfl⟩, ?_⟩
    split
    · exact ⟨⟨rfl, rfl, rfl, rfl, rfl, rfl⟩, rfl, .inl ⟨rfl, fun _ => Statement.noConfusion⟩⟩
    · exact ⟨.refl x, rfl, .inl ⟨rfl, fun _ => Statement.noConfusion⟩⟩
  | deleteEntities f =>
    refine ⟨x, mem_deleteWhere.mpr ⟨hx, ?_⟩, .refl x, rfl, .inl ⟨rfl, fun _ => Statement.noConfusion⟩⟩
    rw [hfree]
    rfl
  | _ => exact ⟨x, hx, .refl x, rfl, .inl ⟨rfl, fun _ => Statement.noConfusion⟩⟩

/-- **The row of a function along a run of such statements.** -/
theorem Filed.row_effects (h : Filed t) (hs : t.Stores a) {ss : List Statement}
    (hf : ∀ s ∈ ss, s.Files a) {x : Entity}
    (hcat : ∀ row, .upsertFunction row ∈ ss → row.localPair ≠ x.localPair)
    (hx : x ∈ t.entities) {key : String} (hk : x.localKey = functionLocal key) :
    ∃ y ∈ (Irez.effects ss t).entities, x.SameSeat y ∧ y.name = x.name ∧
      (y.facts = x.facts ∧ (∀ row, .upsertEntity row ∈ ss → row.localPair ≠ x.localPair) ∨
        ∃ row, .upsertEntity row ∈ ss ∧ row.localPair = x.localPair ∧ y.facts = row.facts) := by
  induction ss generalizing t x with
  | nil => exact ⟨x, hx, .refl x, rfl, .inl ⟨rfl, fun _ hm => absurd hm List.not_mem_nil⟩⟩
  | cons s ss ih =>
    have hmem : ∀ {s'}, s' ∈ ss → s' ∈ s :: ss := List.mem_cons_of_mem s
    obtain ⟨y, hy, hseat, hname, hfacts⟩ := h.row_effect hs (hf s List.mem_cons_self)
      (fun row he => hcat row (he ▸ List.mem_cons_self)) hx hk
    have hpair : y.localPair = x.localPair := Prod.ext hseat.artifact hseat.key
    obtain ⟨z, hz, hseat', hname', hfacts'⟩ := ih (h.effect hs (hf s List.mem_cons_self))
      (hs.effect s) (fun s' hs' => hf s' (hmem hs'))
      (fun row hrow => hpair ▸ hcat row (hmem hrow)) hy (hseat.key.trans hk)
    rw [hpair] at hfacts'
    refine ⟨z, hz, hseat.trans hseat', hname'.trans hname, ?_⟩
    -- the last record upserted to the row decides
    rcases hfacts' with ⟨hlast, hnone⟩ | ⟨row, hrow, hrp, hlast⟩
    · rcases hfacts with ⟨hfirst, hno⟩ | ⟨row, rfl, hrp, hfirst⟩
      · refine .inl ⟨hlast.trans hfirst, fun row hrow => ?_⟩
        rcases List.mem_cons.mp hrow with he | hrow
        · exact hno row he.symm
        · exact hnone row hrow
      · exact .inr ⟨row, List.mem_cons_self, hrp, hlast.trans hfirst⟩
    · exact .inr ⟨row, hmem hrow, hrp, hlast⟩

end Statements

/-! ## 3. Calls -/

section Calls

variable {β : Type} {L : Library β} {db db' : Database} {a : Artifact}

/-- The streams of the library that are no failure. -/
theorem Library.functionGraph_select {bytes : Option β} {key : String}
    (h : firstError (L.functionGraph bytes key) = none) :
    ∃ M n F, L.parseIRFile bytes = .ok M ∧ selectFunction key 0 M.functions = some (n, F) ∧
      L.functionGraph bytes key = Irez.functionGraph L.postDominators M key := by
  unfold Library.functionGraph at h ⊢
  split at h
  · cases h
  · rename_i M hM
    cases hsel : selectFunction key 0 M.functions with
    | none =>
      rw [selectFunction_none hsel] at h
      cases h
    | some selected =>
      obtain ⟨n, F⟩ := selected
      exact ⟨M, n, F, hM, hsel, rfl⟩

theorem Library.catalog_numbered {bytes : Option β} {f : FunctionRecord}
    (hf : f ∈ functionRecords (L.catalog bytes)) : ∃ K : Nat, f.key = functionKey K ∧ f.ordinal = K := by
  unfold Library.catalog at hf
  split at hf
  · exact absurd hf List.not_mem_nil
  · obtain ⟨K, F, _, rfl⟩ := mem_functionRecords.mp hf
    exact ⟨K, rfl, rfl⟩

theorem publishCatalogStatements_numbers (bytes : Option β) (a : Artifact) (run : String)
    (module : ModuleRecord) (endedAt : Time) :
    ∀ s ∈ publishCatalogStatements a run module (L.catalog bytes) endedAt, s.Numbers := by
  refine forall_publishCatalogStatements.mpr ⟨trivial, fun f hf => ⟨?_, trivial, trivial⟩, trivial⟩
  intro K hK
  obtain ⟨J, hkey, hord⟩ := Library.catalog_numbered hf
  obtain rfl : J = K := functionKey_inj (hkey.symm.trans (functionLocal_inj hK))
  exact congrArg some hord

/-- The statements of a publish, both halves. -/
def Publish.statements (p : Publish) (t : Tables) : List Statement :=
  replaceStatements p.target p.entities ++ p.writeStatements (p.localIds (p.replaced t))

theorem Publish.exec_statements {p : Publish} {io : Faults} (h : p.exec io db = .ok db') :
    db'.toTables = effects (p.statements db.toTables) db.toTables := by
  obtain ⟨_, _, _, _, _, ht⟩ := Publish.exec_ok h
  unfold Publish.statements
  rw [effects_append]
  exact ht

theorem Publish.statements_files {p : Publish} (t : Tables) (hp : ∀ e ∈ p.entities, e.Sorted) :
    ∀ s ∈ p.statements t, s.Files p.target.artifact :=
  List.forall_mem_append.mpr ⟨p.replaceStatements_files hp, p.writeStatements_files hp _⟩

theorem Publish.forall_statements {p : Publish} {t : Tables} {Q : Statement → Prop}
    (hup : ∀ e ∈ p.entities, Q (.upsertEntity (entityRow p.target.artifact e)))
    (hothers : ∀ s, (∀ row, s ≠ .upsertEntity row) → (∀ row, s ≠ .upsertFunction row) → Q s) :
    ∀ s ∈ p.statements t, Q s := by
  have hrest : ∀ {s : Statement}, (∀ row, s ≠ .upsertEntity row) → (∀ row, s ≠ .upsertFunction row) →
      Q s := fun {s} => hothers s
  refine List.forall_mem_append.mpr ⟨forall_replaceStatements.mpr ⟨?_, ?_, ?_, hup⟩,
    Publish.forall_writeStatements.mpr ⟨fun e _ _ => ?_, fun r _ => ?_, fun s _ => ?_, ?_, ?_,
      fun c _ => ?_, ?_, ?_⟩⟩
  all_goals exact hrest (fun _ => Statement.noConfusion) fun _ => Statement.noConfusion

/-- The records upserted by a publish are those of its stream, and no catalog entries. -/
theorem Publish.mem_statements {p : Publish} {t : Tables} {row : Entity} :
    (.upsertEntity row ∈ p.statements t ↔ ∃ e ∈ p.entities, row = entityRow p.target.artifact e) ∧
      .upsertFunction row ∉ p.statements t := by
  have hall : ∀ s ∈ p.statements t, (∀ row, s = .upsertEntity row →
      ∃ e ∈ p.entities, row = entityRow p.target.artifact e) ∧ ∀ row, s ≠ .upsertFunction row := by
    refine Publish.forall_statements (fun e he => ⟨fun row hrow => ?_, fun _ => Statement.noConfusion⟩)
      fun s hent hcat => ⟨fun row hrow => absurd hrow (hent row), hcat⟩
    cases hrow
    exact ⟨e, he, rfl⟩
  refine ⟨⟨fun hm => (hall _ hm).1 row rfl, ?_⟩, fun hm => (hall _ hm).2 row rfl⟩
  rintro ⟨e, he, rfl⟩
  refine List.mem_append_left _ (List.mem_append_right _ ?_)
  exact List.mem_map_of_mem he

/-- The entities of a stream of the library, which may be a parse error. -/
theorem Library.sorted {bytes : Option β} {key : String} :
    ∀ e ∈ entityRecords (L.functionGraph bytes key), e.Sorted := by
  intro e he
  unfold Library.functionGraph at he
  split at he
  · exact absurd he List.not_mem_nil
  · exact FromAdapter.sorted ⟨_, _, _, rfl⟩ he

theorem Library.entity_numbers {bytes : Option β} {key : String} (a : Artifact) :
    ∀ e ∈ entityRecords (L.functionGraph bytes key), (Statement.upsertEntity (entityRow a e)).Numbers := by
  intro e he K hK
  have hkind := ((L.sorted e he).function _ hK).1
  unfold Library.functionGraph at he
  split at he
  · exact absurd he List.not_mem_nil
  · rename_i M hM
    cases hsel : selectFunction key 0 M.functions with
    | none =>
      have hmem := mem_entityRecords.mp he
      unfold Irez.functionGraph at hmem
      rw [hsel] at hmem
      simp [moduleHeader] at hmem
    | some selected =>
      obtain ⟨n, F⟩ := selected
      obtain rfl := (functionGraph_function hsel).2 e he hkind
      have hnK : n = K := functionKey_inj (functionLocal_inj hK)
      rw [hnK]
      rfl

/-- **A publish of a stream of the library keeps rows and numbers.** -/
theorem Numbered.publish {p : Publish} {io : Faults} (h : Numbered db.toTables)
    (hs : db.Stores p.target.artifact) (hp : ∀ e ∈ p.entities, e.Sorted)
    (hn : ∀ e ∈ p.entities, (Statement.upsertEntity (entityRow p.target.artifact e)).Numbers)
    (he : p.exec io db = .ok db') : Numbered db'.toTables := by
  rw [Publish.exec_statements he]
  refine h.effects hs (Publish.statements_files _ hp) (Publish.forall_statements hn ?_)
  intro s hent hcat
  cases s with
  | upsertEntity row => exact absurd rfl (hent row)
  | upsertFunction row => exact absurd rfl (hcat row)
  | _ => trivial

theorem Numbered.of_entities {t t' : Tables} (h : Numbered t) (hf : Filed t')
    (he : t'.entities = t.entities) : Numbered t' := ⟨hf, he ▸ h.ordinals⟩

theorem Numbered.claimCatalog {io : Faults} {d : ClaimDraw} {index : IndexLevel}
    (h : Numbered db.toTables) (hs : db.Stores a)
    (hclaim : Irez.claimCatalog io d a index db = .ok db') :
    Numbered db'.toTables ∧ db'.Stores a := by
  refine ⟨?_, claimCatalog_stores hclaim hs⟩
  obtain ⟨run, _, ht⟩ := claimCatalog_effects hclaim
  rw [ht]
  refine h.effects hs (fun s hm => ?_) fun s hm => ?_
  · simp only [List.mem_cons, List.not_mem_nil, or_false] at hm
    rcases hm with rfl | rfl | rfl <;> trivial
  · simp only [List.mem_cons, List.not_mem_nil, or_false] at hm
    rcases hm with rfl | rfl | rfl <;> trivial

theorem Numbered.claimFunction {io : Faults} {d : ClaimDraw} {target : Target} {handle : String}
    {refresh : Bool} (h : Numbered db.toTables)
    (hent : enter db.toTables handle refresh = .ok (.analyse target))
    (hclaim : Irez.claimFunction io d target db = .ok db') :
    Numbered db'.toTables ∧ db'.Stores target.artifact := by
  obtain ⟨hst, _⟩ := h.filed.enter hent
  refine ⟨?_, claimFunction_stores hclaim hst⟩
  obtain ⟨run, _, ht⟩ := claimFunction_effects hclaim
  rw [ht]
  refine h.effects hst (fun s hs => ?_) fun s hs => ?_
  · simp only [List.mem_cons, List.not_mem_nil, or_false] at hs
    rcases hs with rfl | rfl <;> trivial
  · simp only [List.mem_cons, List.not_mem_nil, or_false] at hs
    rcases hs with rfl | rfl <;> trivial

/-- **One call keeps rows and numbers**, whatever the files hold. -/
theorem Numbered.step (h : Numbered db.toTables) (hstep : L.Step db db') :
    Numbered db'.toTables := by
  cases hstep with
  | store ha he =>
    rw [exec_ok he]
    exact h.of_entities (h.filed.insertArtifact ha) rfl
  | mark hs he =>
    rw [exec_ok he]
    rcases hs with rfl | rfl
    · exact h.of_entities (h.filed.of_entities (.update rfl fun _ => ⟨rfl, rfl⟩) h.filed.entities) rfl
    · exact h.of_entities (h.filed.of_entities (.update rfl fun _ => ⟨rfl, rfl⟩) h.filed.entities) rfl
  | @catalog env graph d a index _ _ result ha hg hr =>
    cases refreshCatalog_run hr with
    | refused => exact h
    | abandoned hclaim => exact (h.claimCatalog ha hclaim).1
    | failed hclaim hfail =>
      obtain ⟨h₁, hs₁⟩ := h.claimCatalog ha hclaim
      rw [transaction_ok hfail]
      exact h₁.effects hs₁ (forall_failCatalogStatements.mpr ⟨trivial, trivial⟩)
        (forall_failCatalogStatements.mpr ⟨trivial, trivial⟩)
    | published hclaim hgraph _ hpub =>
      obtain ⟨h₁, hs₁⟩ := h.claimCatalog ha hclaim
      obtain ⟨bytes, rfl⟩ := hg _ _ hgraph
      rw [transaction_ok hpub]
      exact h₁.effects hs₁ (publishCatalogStatements_files _ _ _ _ _)
        (publishCatalogStatements_numbers _ _ _ _ _)
  | @materialize env graph d handle refresh _ _ result hg hm =>
    cases materialize_run hm with
    | answered | refused => exact h
    | abandoned hent hclaim => exact (h.claimFunction hent hclaim).1
    | failed hent hclaim hfail =>
      obtain ⟨h₁, hs₁⟩ := h.claimFunction hent hclaim
      rw [transaction_ok hfail]
      exact h₁.effects hs₁ (forall_failFunctionStatements.mpr ⟨trivial, trivial⟩)
        (forall_failFunctionStatements.mpr ⟨trivial, trivial⟩)
    | published hent hclaim hgraph hpub =>
      obtain ⟨h₁, hs₁⟩ := h.claimFunction hent hclaim
      obtain ⟨bytes, rfl⟩ := hg _ _ _ hgraph
      exact h₁.publish hs₁ L.sorted (L.entity_numbers _) hpub

theorem Numbered.fresh {t : Tables} (h : t.Fresh) : Numbered t where
  filed := by
    refine ⟨fun a ha => ?_, fun e he => ?_⟩
    · rw [h.artifacts] at ha
      exact absurd ha List.not_mem_nil
    · rw [h.entities] at he
      exact absurd he List.not_mem_nil
  ordinals x hx := by
    rw [h.entities] at hx
    exact absurd hx List.not_mem_nil

/-- **Rows are filed and numbered in every state reached.** -/
theorem Library.Reachable.numbered (h : L.Reachable db) : Numbered db.toTables := by
  obtain ⟨db₀, h₀, hrun⟩ := h
  induction hrun with
  | refl => exact .fresh h₀
  | tail _ hstep ih => exact ih.step hstep

/-! ## 4. After a catalog -/

theorem Library.catalog_keys (bytes : Option β) :
    ((functionRecords (L.catalog bytes)).map (·.key)).Nodup := by
  unfold Library.catalog
  split
  · exact List.nodup_nil
  · rename_i M hM
    have hkeys : (functionRecords (Irez.catalog M)).map (·.key) =
        (M.functions.zipIdx.map (·.2)).map functionKey := by
      rw [functionRecords_catalog, List.map_map, List.map_map]
      rfl
    rw [hkeys, List.zipIdx_map_snd]
    exact List.Nodup.map (fun _ _ he => functionKey_inj he) List.nodup_range'

/-- The columns a catalog entry writes. -/
structure FunctionRecord.Written (f : FunctionRecord) (a : Artifact) (x : Entity) : Prop where
  pair : x.localPair = (a.id, functionLocal f.key)
  name : x.name = some f.name
  facts : x.facts = (some f.signature, f.attributes)

theorem mem_upsertFunction (f : FunctionRecord) (a : Artifact) (t : Tables) :
    ∃ x ∈ ((Statement.upsertFunction (f.entityRow a)).effect t).entities, f.Written a x := by
  show ∃ x ∈ upsert Entity.localPair Entity.recatalog (f.entityRow a) t.entities, f.Written a x
  unfold upsert
  split
  · rename_i hsome
    obtain ⟨old, hold⟩ := Option.isSome_iff_exists.mp hsome
    have hpair : old.localPair = (f.entityRow a).localPair := key_of_lookup hold
    refine ⟨_, mem_updateWhere.mpr ⟨old, mem_of_lookup hold, rfl⟩, ?_⟩
    rw [if_pos (decide_eq_true hpair)]
    exact ⟨hpair, rfl, rfl⟩
  · exact ⟨_, List.mem_append_right _ (List.mem_singleton.mpr rfl), rfl, rfl, rfl⟩

/-- **What a published catalog writes** of each of its functions. -/
theorem Numbered.publishCatalog {bytes : Option β} {io : Faults} {run : String}
    {module : ModuleRecord} {endedAt : Time} (h : Numbered db.toTables) (hs : db.Stores a)
    (he : Irez.publishCatalog io a run module (L.catalog bytes) endedAt db = .ok db')
    {f : FunctionRecord} (hf : f ∈ functionRecords (L.catalog bytes)) :
    ∃ x ∈ db'.entities, f.Written a x := by
  have hfiles := publishCatalogStatements_files a run module (L.catalog bytes) endedAt
  have hnumbers := publishCatalogStatements_numbers (L := L) bytes a run module endedAt
  have hkeys := L.catalog_keys bytes
  obtain ⟨pre, post, hsplit⟩ := List.append_of_mem hf
  let first : List Statement := .publishArtifact module
    ((capabilitiesRecord (L.catalog bytes)).getD []) a.id :: pre.flatMap (·.statements a)
  let rest : List Statement := .upsertMaterialization (f.materializationRow a) ::
    .markEntity (if f.declaration then .declarationOnly else .catalogOnly) (f.handle a) ::
      (post.flatMap (·.statements a) ++ [.endRun run .success endedAt none])
  have hlist : publishCatalogStatements a run module (L.catalog bytes) endedAt =
      first ++ .upsertFunction (f.entityRow a) :: rest := by
    unfold publishCatalogStatements
    rw [hsplit]
    simp [first, rest, FunctionRecord.statements]
  rw [hlist] at hfiles hnumbers
  rw [transaction_ok he, hlist, effects_append, effects_cons]
  have hmem : ∀ {s}, s ∈ rest → s ∈ first ++ .upsertFunction (f.entityRow a) :: rest :=
    fun hm => List.mem_append_right _ (List.mem_cons_of_mem _ hm)
  have hself : Statement.upsertFunction (f.entityRow a) ∈
      first ++ .upsertFunction (f.entityRow a) :: rest :=
    List.mem_append_right _ List.mem_cons_self
  have h₁ : Numbered (Irez.effects first db.toTables) :=
    h.effects hs (fun s hm => hfiles s (List.mem_append_left _ hm)) fun s hm =>
      hnumbers s (List.mem_append_left _ hm)
  have hs₁ : (Irez.effects first db.toTables).Stores a := hs.effects first
  have h₂ := h₁.effect hs₁ (hfiles _ hself) (hnumbers _ hself)
  obtain ⟨x, hx, hw⟩ := mem_upsertFunction f a (Irez.effects first db.toTables)
  -- nothing after it is an entry of the same function, or a record of `function_graph`
  have hrest : ∀ s ∈ rest, (∀ row, s = .upsertFunction row → row.localPair ≠ x.localPair) ∧
      ∀ row, s ≠ .upsertEntity row := by
    have hother : ∀ {s : Statement}, (∀ row, s ≠ .upsertFunction row) →
        (∀ row, s ≠ .upsertEntity row) →
        (∀ row, s = .upsertFunction row → row.localPair ≠ x.localPair) ∧
          ∀ row, s ≠ .upsertEntity row := fun h h' => ⟨fun row he => absurd he (h row), h'⟩
    simp only [rest, List.forall_mem_cons, List.forall_mem_append, List.forall_mem_flatMap,
      FunctionRecord.statements, List.not_mem_nil, false_implies, implies_true, and_true]
    have hn {s : Statement} := @hother s
    refine ⟨hn (fun _ => Statement.noConfusion) fun _ => Statement.noConfusion,
      hn (fun _ => Statement.noConfusion) fun _ => Statement.noConfusion, fun g hg => ?_,
      hn (fun _ => Statement.noConfusion) fun _ => Statement.noConfusion⟩
    refine ⟨⟨fun row hrow => ?_, fun _ => Statement.noConfusion⟩,
      hn (fun _ => Statement.noConfusion) fun _ => Statement.noConfusion,
      hn (fun _ => Statement.noConfusion) fun _ => Statement.noConfusion⟩
    cases hrow
    rw [hw.pair]
    intro hpair
    have hkey : g.key = f.key := functionLocal_inj (Prod.mk.inj hpair).2
    rw [hsplit, List.map_append, List.map_cons] at hkeys
    have hnot := (List.nodup_cons.mp (List.nodup_append.mp hkeys).2.1).1
    exact hnot (hkey ▸ List.mem_map_of_mem hg)
  obtain ⟨y, hy, hseat, hname, hfacts⟩ := h₂.filed.row_effects (hs₁.effect _)
    (fun s hm => hfiles s (hmem hm)) (fun row hm => (hrest _ hm).1 row rfl) hx
    (Prod.mk.inj hw.pair).2
  refine ⟨y, hy, (Prod.ext hseat.artifact hseat.key : y.localPair = x.localPair).trans hw.pair,
    hname.trans hw.name, ?_⟩
  rcases hfacts with ⟨hfacts, _⟩ | ⟨row, hm, _⟩
  · exact hfacts.trans hw.facts
  · exact absurd rfl ((hrest _ hm).2 row)

end Calls

/-! ## 5. Sequences of calls -/

/-- A call of `materialize`: what it is asked, what it draws, and what the files hold then. -/
structure MaterializeCall (β : Type) where
  env : Environment
  draw : MaterializeDraw
  handle : String
  refresh : Bool
  files : String → Option β

section Sequences

variable {β : Type} (L : Library β)

namespace MaterializeCall

variable (c : MaterializeCall β)

def graph (path key : String) : Outcome := .ok (L.functionGraph (c.files path) key)

def run (db : Database) : Database × Except Thrown Materialized :=
  materialize c.env (c.graph L) c.draw c.handle c.refresh db

/-- The call analyses the `K`-th function of `a`: it gets past the cache, and its key selects
    that function in the module the file holds. -/
def Analyses (a : Artifact) (K : Nat) (db : Database) : Prop :=
  ∃ target M F, enter db.toTables c.handle c.refresh = .ok (.analyse target) ∧
    target.artifact.id = a.id ∧ L.parseIRFile (c.files target.artifact.storedPath) = .ok M ∧
    selectFunction target.key 0 M.functions = some (K, F)

end MaterializeCall

/-- Calls that all succeed, one after the other. -/
def Succeed : List (MaterializeCall β) → Database → Database → Prop
  | [], db, db' => db' = db
  | c :: cs, db, db' => ∃ db₁ response, c.run L db = (db₁, .ok response) ∧ Succeed cs db₁ db'

/-- No call of the sequence analyses the function. -/
def Spared (a : Artifact) (K : Nat) : List (MaterializeCall β) → Database → Prop
  | [], _ => True
  | c :: cs, db => ¬ c.Analyses L a K db ∧ Spared a K cs (c.run L db).1

variable {L} {c : MaterializeCall β} {db db' : Database} {a : Artifact} {x : Entity} {K : Nat}

theorem MaterializeCall.step {response : Materialized} (h : c.run L db = (db', .ok response)) :
    L.Step db db' :=
  .materialize (fun _ _ _ hr => ⟨_, (Except.ok.inj hr).symm⟩) h

/-- **What one successful call leaves of the row of a function**: the row under its name, and
    no attributes exactly where the call analysed that function. -/
theorem MaterializeCall.row {response : Materialized} (h : Numbered db.toTables)
    (hrun : c.run L db = (db', .ok response)) (hx : x ∈ db.entities) (hart : x.artifactId = a.id)
    (hk : x.localKey = functionLocal (functionKey K)) :
    ∃ y ∈ db'.entities, x.SameSeat y ∧ y.name = x.name ∧
      (y.facts = x.facts ∧ ¬ c.Analyses L a K db ∨
        y.attributes = [] ∧ c.Analyses L a K db) := by
  cases materialize_run hrun with
  | answered hent =>
    refine ⟨x, hx, .refl x, rfl, .inl ⟨rfl, ?_⟩⟩
    intro han
    obtain ⟨target, _, _, htarget, _⟩ := han
    rw [hent] at htarget
    cases htarget
  | @published target db₁ _ records hent hclaim hgraph hpub =>
    obtain ⟨target', db₁', records', hent', hclaim', hacc, _, _⟩ := materialize_published hrun
    rw [hent] at hent'
    cases hent'
    rw [hclaim] at hclaim'
    cases hclaim'
    obtain ⟨hout, hnone⟩ := accept_ok hacc
    rw [hgraph] at hout
    cases hout
    cases hgraph
    obtain ⟨M, n, F, hM, hsel, hstream⟩ := Library.functionGraph_select hnone
    obtain ⟨hfunction, hfunctions⟩ := @functionGraph_function L.postDominators M target.key n F hsel
    obtain ⟨h₁, hs₁⟩ := h.claimFunction hent hclaim
    have he₁ : db₁.entities = db.entities := by
      obtain ⟨_, _, _, _, ht⟩ := claimFunction_ok hclaim
      rw [ht]
    let p := Publish.of target c.draw.claim.runId c.draw.claim.owner c.draw.publish
      (L.functionGraph (c.files target.artifact.storedPath) target.key)
    have hsorted : ∀ e ∈ p.entities, e.Sorted := L.sorted
    obtain ⟨y, hy, hseat, hname, hfacts⟩ := h₁.filed.row_effects hs₁
      (Publish.statements_files (p := p) _ hsorted) (x := x)
      (fun row hm => absurd hm Publish.mem_statements.2) (he₁ ▸ hx) hk
    -- the call analyses the function where its stream has a record of it
    have hrecord : c.Analyses L a K db ↔ ∃ e ∈ p.entities,
        (entityRow target.artifact e).localPair = x.localPair := by
      constructor
      · rintro ⟨target', M', F', hent', hid, hM', hsel'⟩
        rw [hent] at hent'
        cases hent'
        rw [hM] at hM'
        cases hM'
        rw [hsel] at hsel'
        cases hsel'
        refine ⟨Selected.functionEntity ⟨M, K, F⟩, ?_, Prod.ext (hid.trans hart.symm) hk.symm⟩
        show Selected.functionEntity ⟨M, K, F⟩ ∈ entityRecords (L.functionGraph _ _)
        rw [hstream]
        exact hfunction
      · rintro ⟨e, he, hpair⟩
        obtain ⟨hid, hl⟩ := Prod.mk.inj hpair
        have hkey : e.localKey = functionLocal (functionKey K) := hl.trans hk
        have hkind := ((hsorted e he).function _ hkey).1
        have hin : e ∈ entityRecords (Irez.functionGraph L.postDominators M target.key) :=
          hstream ▸ he
        rw [hfunctions e hin hkind] at hkey
        have hn : n = K := functionKey_inj (functionLocal_inj hkey)
        exact ⟨target, M, F, hent, hid.trans hart, hM, hn ▸ hsel⟩
    rw [← Publish.exec_statements hpub] at hy
    refine ⟨y, hy, hseat, hname, ?_⟩
    rcases hfacts with ⟨hfacts, hnone⟩ | ⟨row, hm, hpair, hfacts⟩
    · refine .inl ⟨hfacts, fun han => ?_⟩
      obtain ⟨e, he, hpair⟩ := hrecord.mp han
      exact hnone _ (Publish.mem_statements.1.mpr ⟨e, he, rfl⟩) hpair
    · obtain ⟨e, he, rfl⟩ := Publish.mem_statements.1.mp hm
      refine .inr ⟨?_, hrecord.mpr ⟨e, he, hpair⟩⟩
      have hkey : e.localKey = functionLocal (functionKey K) := (Prod.mk.inj hpair).2.trans hk
      exact (congrArg Prod.snd hfacts).trans ((hsorted e he).function _ hkey).2

/-- **What a sequence leaves of the row of a function.** -/
theorem Succeed.row {cs : List (MaterializeCall β)} (h : Numbered db.toTables)
    (hrun : Succeed L cs db db') (hx : x ∈ db.entities) (hart : x.artifactId = a.id)
    (hk : x.localKey = functionLocal (functionKey K)) :
    ∃ y ∈ db'.entities, x.SameSeat y ∧ y.name = x.name ∧
      (y.facts = x.facts ∧ Spared L a K cs db ∨ y.attributes = [] ∧ ¬ Spared L a K cs db) := by
  induction cs generalizing db x with
  | nil =>
    obtain rfl := hrun
    exact ⟨x, hx, .refl x, rfl, .inl ⟨rfl, trivial⟩⟩
  | cons c cs ih =>
    obtain ⟨db₁, response, hcall, hrest⟩ := hrun
    obtain ⟨y, hy, hseat, hname, hfacts⟩ := c.row h hcall hx hart hk
    obtain ⟨z, hz, hseat', hname', hfacts'⟩ := ih (h.step (MaterializeCall.step hcall)) hrest hy
      (hseat.artifact.trans hart) (hseat.key.trans hk)
    have hspared : Spared L a K (c :: cs) db ↔ ¬ c.Analyses L a K db ∧ Spared L a K cs db₁ := by
      show ¬ c.Analyses L a K db ∧ Spared L a K cs (c.run L db).1 ↔ _
      rw [hcall]
    refine ⟨z, hz, hseat.trans hseat', hname'.trans hname, ?_⟩
    rw [hspared]
    rcases hfacts' with ⟨hlast, hsp⟩ | ⟨hlast, hsp⟩
    · rcases hfacts with ⟨hfirst, han⟩ | ⟨hfirst, han⟩
      · exact .inl ⟨hlast.trans hfirst, han, hsp⟩
      · exact .inr ⟨(congrArg Prod.snd hlast).trans hfirst, fun hc => hc.1 han⟩
    · exact .inr ⟨hlast, fun hc => hsp hc.2⟩

end Sequences

/-! ## 6. functions -/

/-- An item of the answer of `functions`. -/
structure FunctionItem where
  handle : String
  name : Option String
  llvmType : Option String
  ordinal : Option Int
  status : Status
  attributes : Attributes
  deriving DecidableEq, Repr

def functionItem (e : Entity) (m : Materialization) : FunctionItem :=
  { handle := e.id, name := e.name, llvmType := e.llvmType, ordinal := e.ordinal
    status := m.status, attributes := e.attributes }

/-- `ORDER BY e.ordinal`: NULL comes first. -/
def Entity.position (e : Entity) : WithBot Int := e.ordinal

/-- `FROM entities e JOIN materializations m ON m.function_id=e.id WHERE e.artifact_id=? AND
    e.kind='function' …`. -/
def Tables.functionItems (t : Tables) (artifactId : String) : List FunctionItem :=
  ((t.entities.filter fun e => e.artifactId = artifactId && e.kind = "function").insertionSort
    fun e e' => e.position ≤ e'.position).flatMap fun e =>
      (t.materializations.filter (·.functionId = e.id)).map (functionItem e)

/-- `artifact_or_throw`: the artifact named, or the row stored last. -/
def artifactNamed (t : Tables) (artifact : Option String) : Except Thrown Artifact :=
  match (match artifact with
    | some id => t.artifact id
    | none => t.artifacts.getLast?) with
  | some a => .ok a
  | none => .error (.irez (notFound "artifact not found"))

/-- An entry of `diagnostics`. -/
structure Diagnostic where
  kind : String
  status : String
  message : String
  hint : String
  deriving DecidableEq, Repr

def implicitTarget : Diagnostic :=
  { kind := "implicit_target", status := "note"
    message := "no artifact was specified; the query ran against the most " ++
      "recently ingested artifact only"
    hint := "pass --artifact <id> (see artifacts) to search a specific artifact" }

/-- `pattern.emplace(*match)`; `regex` compiles an ECMAScript expression. -/
def compilePattern (regex : String → Option (String → Bool)) (pattern : Option String) :
    Except Thrown (String → Bool) :=
  match pattern with
  | none => .ok fun _ => true
  | some text =>
    match regex text with
    | some test => .ok test
    | none => .error (.irez
        { message := "invalid match pattern: not a valid ECMAScript regular expression" })

/-- `Service::functions`. -/
def functionsQuery (regex : String → Option (String → Bool)) (artifact pattern : Option String)
    (t : Tables) : Except Thrown (Envelope (List FunctionItem) × List Diagnostic) := do
  let a ← artifactNamed t artifact
  let test ← compilePattern regex pattern
  let rows := (t.functionItems a.id).filter fun item => test (item.name.getD "")
  let inv ← investigationId t
  .ok ({ command := "functions", investigation := inv, target := a.id, result := rows },
    if artifact.isNone && rows.isEmpty then [implicitTarget] else [])

section Reports

variable {t : Tables} {x : Entity}

/-- **What `functions` reports of a function** is its row. -/
theorem functionsQuery_item (hc : t.Constraints) (hx : x ∈ t.entities)
    {regex : String → Option (String → Bool)} {artifact pattern : Option String}
    {out : Envelope (List FunctionItem)} {notes : List Diagnostic}
    (h : functionsQuery regex artifact pattern t = .ok (out, notes)) {item : FunctionItem}
    (hi : item ∈ out.result) (hid : item.handle = x.id) :
    item.name = x.name ∧ item.ordinal = x.ordinal ∧ item.llvmType = x.llvmType ∧
      item.attributes = x.attributes := by
  unfold functionsQuery at h
  obtain ⟨a, _, h⟩ := bind_eq_ok h
  obtain ⟨test, _, h⟩ := bind_eq_ok h
  obtain ⟨inv, _, h⟩ := bind_eq_ok h
  cases h
  obtain ⟨e, he, hi⟩ := List.mem_flatMap.mp (List.mem_filter.mp hi).1
  obtain ⟨m, _, rfl⟩ := List.mem_map.mp hi
  have hmem : e ∈ t.entities := (List.mem_filter.mp ((List.mem_insertionSort _).mp he)).1
  obtain rfl := List.inj_on_of_nodup_map hc.entityKey hmem hx hid
  exact ⟨rfl, rfl, rfl, rfl⟩

/-- **What `show --view exact` reports of an entity** is its row. -/
theorem readShow_exact (hc : t.Constraints) (hx : x ∈ t.entities) {kind : Option String}
    {budget : Int} {out : Envelope ShowResult} (h : readShow x.id "exact" kind budget t = .ok out) :
    ∃ edges, out.result = .exact x edges := by
  unfold readShow at h
  obtain ⟨entity, hentity, h⟩ := bind_eq_ok h
  obtain ⟨_, _, h⟩ := bind_eq_ok h
  obtain ⟨_, _, h⟩ := bind_eq_ok h
  obtain ⟨_, _, h⟩ := bind_eq_ok h
  obtain ⟨_, _, h⟩ := bind_eq_ok h
  obtain ⟨body, hbody, h⟩ := bind_eq_ok h
  obtain ⟨inv, _, h⟩ := bind_eq_ok h
  cases h
  obtain rfl : entity = x := by
    unfold entityOrThrow Tables.entity at hentity
    rw [lookup_self hc.entityKey hx] at hentity
    exact (Except.ok.inj hentity).symm
  unfold showBody at hbody
  rw [if_pos (by simp)] at hbody
  cases hbody
  exact ⟨_, rfl⟩

end Reports

/-! ## 7. When the catalog's facts stay -/

/-- What `functions` and `show --view exact` report of a row. -/
structure Reported (t : Tables) (x : Entity) : Prop where
  functions : ∀ regex artifact pattern out notes,
    functionsQuery regex artifact pattern t = .ok (out, notes) → ∀ item ∈ out.result,
      item.handle = x.id → item.name = x.name ∧ item.ordinal = x.ordinal ∧
        item.llvmType = x.llvmType ∧ item.attributes = x.attributes
  exactView : ∀ kind budget out, readShow x.id "exact" kind budget t = .ok out →
    ∃ edges, out.result = .exact x edges

theorem reported {db : Database} {x : Entity} (hx : x ∈ db.entities) : Reported db.toTables x where
  functions _ _ _ _ _ h _ hi hid := functionsQuery_item db.constraints hx h hi hid
  exactView _ _ _ h := readShow_exact db.constraints hx h

/-- **The catalog's facts stay exactly as long as no call analyses the function.** After a
    catalog publish and any sequence of successful `materialize` calls, a function has the name
    and the ordinal of its catalog entry. It has the type and the attributes of that entry if
    and only if no call got past the cache with a key that selects it. -/
theorem catalog_facts_kept {β : Type} {L : Library β} {db db₀ db' : Database} (hreach : L.Reachable db)
    {a : Artifact} (hs : db.Stores a) {env : Environment} {files : String → Option β}
    {d : CatalogDraw} {index : IndexLevel}
    (hcat : refreshCatalog env (fun path => .ok (L.catalog (files path))) d a index db = (db₀, .ok ()))
    {f : FunctionRecord} (hf : f ∈ functionRecords (L.catalog (files a.storedPath)))
    {cs : List (MaterializeCall β)} (hcs : Succeed L cs db₀ db') :
    ∃ K x, f.key = functionKey K ∧ x ∈ db'.entities ∧ x.id = f.handle a ∧ x.kind = "function" ∧
      x.name = some f.name ∧ x.ordinal = some f.ordinal ∧
      (x.llvmType = some f.signature ∧ x.attributes = f.attributes ↔ Spared L a K cs db₀) ∧
      Reported db'.toTables x := by
  obtain ⟨K, hkey, hord⟩ := Library.catalog_numbered hf
  have hnum := hreach.numbered
  have hstep : L.Step db db₀ := .catalog hs (fun _ _ hr => ⟨_, (Except.ok.inj hr).symm⟩) hcat
  have hnum₀ := hnum.step hstep
  obtain ⟨x₀, hx₀, hw, hs₀⟩ : ∃ x₀ ∈ db₀.entities, f.Written a x₀ ∧ db₀.Stores a := by
    cases refreshCatalog_run hcat with
    | published hclaim hgraph _ hpub =>
      cases hgraph
      obtain ⟨hnum₁, hs₁⟩ := hnum.claimCatalog hs hclaim
      obtain ⟨x₀, hx₀, hw⟩ := hnum₁.publishCatalog hs₁ hpub hf
      refine ⟨x₀, hx₀, hw, ?_⟩
      rw [show db₀.toTables = _ from transaction_ok hpub]
      exact hs₁.effects _
  obtain ⟨x, hx, hseat, hname, hfacts⟩ := hcs.row hnum₀ hx₀ (Prod.mk.inj hw.pair).1
    ((Prod.mk.inj hw.pair).2.trans (congrArg functionLocal hkey))
  have hl₀ : x₀.localKey = functionLocal f.key := (Prod.mk.inj hw.pair).2
  obtain ⟨b, _, hfiled⟩ := hnum₀.filed.entities x₀ hx₀
  refine ⟨K, x, hkey, hx, ?_, ?_, hname.trans hw.name, ?_, ?_, reported hx⟩
  · have hid := hnum₀.filed.id_of hs₀ hx₀ (Prod.mk.inj hw.pair).1
    rw [hseat.id, hid, hl₀]
    rfl
  · exact hseat.kind.trans (hfiled.function _ hl₀).1
  · rw [hseat.ordinal, hord]
    exact hnum₀.ordinals x₀ hx₀ K (hl₀.trans (congrArg functionLocal hkey))
  · have hw' := Prod.mk.inj hw.facts
    rcases hfacts with ⟨hfacts, hsp⟩ | ⟨hnil, hsp⟩
    · have hf' := Prod.mk.inj hfacts
      exact iff_of_true ⟨hf'.1.trans hw'.1, hf'.2.trans hw'.2⟩ hsp
    · refine iff_of_false (fun hc => ?_) hsp
      rw [hnil] at hc
      exact absurd hc.2 (List.cons_ne_nil _ _).symm

/-! ## 8. A module of two functions -/

namespace TwoFunctions

def module : Module :=
  { Collision.module with functions := [Collision.function "main", Collision.function "g"] }

def library : Library Unit := ⟨fun _ => .ok module, fun _ => Collision.tree⟩

def files (_ : String) : Option Unit := some ()

def draw : CatalogDraw := ⟨Sample.claimDraw "c" "c" 1, 2, 2⟩

def outcome (path : String) : Outcome := .ok (library.catalog (files path))

def catalogued : Database :=
  (refreshCatalog Sample.environment outcome draw Sample.artifact .catalog Sample.database).1

/-- `materialize` of the function with the key. -/
def call (key : String) : MaterializeCall Unit :=
  ⟨Sample.environment, Collision.draw key, entityId Sample.artifact (functionLocal key), false, files⟩

def record : FunctionRecord := catalogEntry (Collision.function "main") 0

theorem database_reachable : library.Reachable Sample.database := by
  have h₀ : Collision.empty.Fresh := ⟨rfl, rfl, rfl, rfl, rfl, rfl, rfl⟩
  have h₁ : library.Step Collision.empty Sample.database :=
    @Library.Step.store _ library noFaults Sample.artifact _ _ ⟨by decide, by decide⟩ rfl
  exact ⟨_, h₀, .single h₁⟩

theorem stores : Sample.database.Stores Sample.artifact :=
  ⟨_, List.mem_singleton.mpr rfl, rfl, rfl⟩

theorem catalog_published : refreshCatalog Sample.environment outcome draw Sample.artifact .catalog
    Sample.database = (catalogued, .ok ()) := rfl

theorem catalogued_reachable : library.Reachable catalogued := by
  obtain ⟨db₀, h₀, hrun⟩ := database_reachable
  have hg : ∀ path records, outcome path = .ok records → ∃ bytes, records = library.catalog bytes :=
    fun _ _ hr => ⟨_, (Except.ok.inj hr).symm⟩
  exact ⟨db₀, h₀, hrun.tail (.catalog stores hg catalog_published)⟩

end TwoFunctions

open TwoFunctions in
/-- The catalog's facts of `main` stay when `g` is materialized. -/
theorem catalog_facts_kept_other :
    ∃ x ∈ ((call "f1").run library catalogued).1.entities, x.id = record.handle Sample.artifact ∧
      x.llvmType = some record.signature ∧ x.attributes = record.attributes := by
  have hf : record ∈ functionRecords (library.catalog (files Sample.artifact.storedPath)) := by decide
  have hcs : Succeed library [call "f1"] catalogued ((call "f1").run library catalogued).1 :=
    ⟨_, .published "run:f1" 3 2, rfl, rfl⟩
  obtain ⟨K, x, hkey, hx, hid, _, _, _, hiff, _⟩ :=
    catalog_facts_kept database_reachable stores catalog_published hf hcs
  obtain rfl : 0 = K := functionKey_inj hkey
  have hspared : Spared library Sample.artifact 0 [call "f1"] catalogued := by
    refine ⟨?_, trivial⟩
    rintro ⟨target, M, F, hent, _, hM, hsel⟩
    cases hent
    cases hM
    cases hsel
  obtain ⟨htype, hattr⟩ := hiff.mpr hspared
  exact ⟨x, hx, hid, htype, hattr⟩

open TwoFunctions in
/-- **Materializing a function takes its attributes away.** -/
theorem attributes_lost : library.Reachable catalogued ∧
    Succeed library [call "f0"] catalogued ((call "f0").run library catalogued).1 ∧
      (∃ x ∈ catalogued.entities, x.id = record.handle Sample.artifact ∧
        x.attributes = record.attributes) ∧
      (∃ x ∈ ((call "f0").run library catalogued).1.entities,
        x.id = record.handle Sample.artifact ∧ x.attributes = []) ∧ record.attributes ≠ [] :=
  ⟨catalogued_reachable, ⟨_, .published "run:f0" 3 2, rfl, rfl⟩, by decide, by decide, by decide⟩

end Irez
