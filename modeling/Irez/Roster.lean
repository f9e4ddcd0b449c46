/-
  File:      Irez/Roster.lean
  Subject:   Every defined function of a catalogued artifact has its row of `materializations`
             (service.cpp 378-412), over every interleaving of processes.

  A catalog writes the rows of all functions in one transaction, no statement deletes a row, and
  the status `declaration_only` comes from a catalog only.

  * `Rostered` -- the rows, said of the modules that the stored files hold;
  * `Rostered.step` -- one step keeps them, where catalogs are those of the module.
-/
import Irez.Conforms

open Irez.Basis

namespace Irez

/-- The artifact was catalogued: its catalog is ready, or it has the row of a function. -/
def Tables.Listed (t : Tables) (a : Artifact) : Prop :=
  a.catalogStatus = .catalogReady ∨ ∃ m ∈ t.materializations, m.artifactId = a.id

/-- The row of a defined function, the `K`-th of its module. -/
def Tables.HasRow (t : Tables) (a : Artifact) (K : Nat) : Prop :=
  ∃ m ∈ t.materializations, m.artifactId = a.id ∧
    m.functionId = entityId a (functionLocal (functionKey K)) ∧ m.status ≠ .declarationOnly

def Rostered (modules : String → Module) (t : Tables) : Prop :=
  ∀ a ∈ t.artifacts, t.Listed a → ∀ (K : Nat) (F : Function),
    (modules a.id).functions[K]? = some F → F.isDeclaration = false → t.HasRow a K

/-- The statements that add no artifact and no row, and make no catalog ready. -/
def Statement.KeepsRoster : Statement → Prop
  | .insertArtifact _ | .publishArtifact .. | .upsertMaterialization _ => False
  | _ => True

/-- The catalogs published are those of the modules the stored files hold. -/
def catalogsOf (modules : String → Module) : Condition
  | w, .publishCatalog p records => ∀ a d, w.phase p = .cataloging a d →
    records = catalog (modules a.id)
  | _, _ => True

section Rostered

variable {modules : String → Module} {t t' : Tables} {a : Artifact}

/-- Tables that list no more artifacts, with the rows of the old ones. -/
theorem Rostered.of_rows (h : Rostered modules t)
    (ha : ∀ a' ∈ t'.artifacts, t'.Listed a' → ∃ a ∈ t.artifacts, a'.id = a.id ∧
      a'.contentSha256 = a.contentSha256 ∧ t.Listed a)
    (hm : ∀ m ∈ t.materializations, m.status ≠ .declarationOnly →
      ∃ m' ∈ t'.materializations, m'.pair = m.pair ∧ m'.status ≠ .declarationOnly) :
    Rostered modules t' := by
  intro a' ha' hlisted K F hF hd
  obtain ⟨a, hat, hid, hsha, hlist⟩ := ha a' ha' hlisted
  rw [hid] at hF
  obtain ⟨m, hmt, hart, hhandle, hst⟩ := h a hat hlist K F hF hd
  obtain ⟨m', hm', hpair, hst'⟩ := hm m hmt hst
  obtain ⟨hp1, hp2⟩ := Prod.mk.inj hpair
  exact ⟨m', hm', hp1.trans (hart.trans hid.symm),
    hp2.trans (hhandle.trans (entityId_congr hsha.symm _)), hst'⟩

/-- An update of artifacts that makes no catalog ready. -/
theorem Rostered.updateArtifacts (h : Rostered modules t) {c : Artifact → Bool} {g : Artifact → Artifact}
    (ha : t'.artifacts = updateWhere c g t.artifacts) (hm : t'.materializations = t.materializations)
    (hg : ∀ a, (g a).id = a.id ∧ (g a).contentSha256 = a.contentSha256 ∧
      ((g a).catalogStatus = .catalogReady → a.catalogStatus = .catalogReady)) : Rostered modules t' := by
  refine h.of_rows (fun a' ha' hlisted => ?_) fun m hmt hst => ⟨m, hm ▸ hmt, rfl, hst⟩
  rw [ha] at ha'
  obtain ⟨a, hat, hrow⟩ := mem_updateWhere.mp ha'
  have hcol : a'.id = a.id ∧ a'.contentSha256 = a.contentSha256 ∧
      (a'.catalogStatus = .catalogReady → a.catalogStatus = .catalogReady) := by
    rw [hrow]
    split
    · exact hg a
    · exact ⟨rfl, rfl, fun hs => hs⟩
  refine ⟨a, hat, hcol.1, hcol.2.1, hlisted.imp hcol.2.2 fun hrows => ?_⟩
  obtain ⟨m, hmt, hart⟩ := hrows
  exact ⟨m, hm ▸ hmt, hart.trans hcol.1⟩

/-- An update of rows that makes none a declaration's. -/
theorem Rostered.updateRows (h : Rostered modules t) {c : Materialization → Bool}
    {g : Materialization → Materialization} (ha : t'.artifacts = t.artifacts)
    (hm : t'.materializations = updateWhere c g t.materializations)
    (hg : ∀ m, (g m).pair = m.pair ∧ (g m).status ≠ .declarationOnly) : Rostered modules t' := by
  refine h.of_rows (fun a' ha' hlisted => ⟨a', ha ▸ ha', rfl, rfl, hlisted.imp_right ?_⟩)
    fun m hmt hst => ⟨if c m then g m else m, ?_, ?_⟩
  · intro hrows
    obtain ⟨m', hm', hart⟩ := hrows
    rw [hm] at hm'
    obtain ⟨m, hmt, rfl⟩ := mem_updateWhere.mp hm'
    refine ⟨m, hmt, ?_⟩
    split at hart
    · exact (Prod.mk.inj (hg m).1).1.symm.trans hart
    · exact hart
  · rw [hm]
    exact mem_updateWhere.mpr ⟨m, hmt, rfl⟩
  · split
    · exact hg m
    · exact ⟨rfl, hst⟩

theorem Rostered.effect (h : Rostered modules t) {s : Statement} (hs : s.KeepsRoster) :
    Rostered modules (s.effect t) := by
  cases s with
  | insertArtifact | publishArtifact | upsertMaterialization => exact absurd hs not_false
  | requestFull | setCatalogRun | completeFull =>
    exact h.updateArtifacts rfl rfl fun _ => ⟨rfl, rfl, fun hr => hr⟩
  | claimCatalog | failArtifact =>
    exact h.updateArtifacts rfl rfl fun _ => ⟨rfl, rfl, fun hr => by cases hr⟩
  | claimFunction | failFunction | publishFunction =>
    exact h.updateRows rfl rfl fun _ => ⟨rfl, fun hr => by cases hr⟩
  | _ => exact h

theorem Rostered.effects (h : Rostered modules t) {ss : List Statement} (hs : ∀ s ∈ ss, s.KeepsRoster) :
    Rostered modules (Irez.effects ss t) :=
  effects_invariant (I := Rostered modules) h fun s hmem _ ht => ht.effect (hs s hmem)

/-- A new artifact has not been catalogued. -/
theorem Rostered.insertArtifact (h : Rostered modules t) {row : Artifact} (hrow : row.catalogStatus = .stored)
    (hc : t.Constraints) (hc' : ((Statement.insertArtifact row).effect t).Constraints) :
    Rostered modules ((Statement.insertArtifact row).effect t) := by
  intro a ha hlisted K F hF hd
  rcases List.mem_append.mp ha with ha | ha
  · exact h a ha hlisted K F hF hd
  · obtain rfl := List.mem_singleton.mp ha
    rcases hlisted with hready | hrows
    · rw [hrow] at hready
      cases hready
    · obtain ⟨m, hm, hart⟩ := hrows
      obtain ⟨b, hb, hbid⟩ := List.mem_map.mp (hc.materializationRefs m hm).1
      have hsame : b = a := List.inj_on_of_nodup_map hc'.artifactKey (List.mem_append_left _ hb)
        (List.mem_append_right _ (List.mem_singleton.mpr rfl)) (hbid.trans hart)
      rw [hsame] at hb
      exact h a hb (Or.inr ⟨m, hm, hart⟩) K F hF hd

/-- The rows of a catalog are its entries. -/
theorem mem_catalogRows {M : Module} {m : Materialization} :
    m ∈ materializationRows a (catalog M) ↔ ∃ (J : Nat) (G : Function),
      M.functions[J]? = some G ∧ m = (catalogEntry G J).materializationRow a := by
  constructor
  · intro hm
    obtain ⟨f, hf, rfl⟩ := List.mem_map.mp hm
    obtain ⟨J, G, hG, rfl⟩ := mem_functionRecords.mp hf
    exact ⟨J, G, hG, rfl⟩
  · intro hm
    obtain ⟨J, G, hG, rfl⟩ := hm
    exact List.mem_map_of_mem (mem_functionRecords.mpr ⟨J, G, hG, rfl⟩)

/-- The row under the handle of a function is the entry of that function. -/
theorem catalogRow_eq {M : Module} {m : Materialization} {K : Nat} {F : Function}
    (hlength : (shortHash a.contentSha256).length = 16) (hF : M.functions[K]? = some F)
    (hm : m ∈ materializationRows a (catalog M))
    (hid : m.functionId = entityId a (functionLocal (functionKey K))) :
    m = (catalogEntry F K).materializationRow a := by
  obtain ⟨J, G, hG, rfl⟩ := mem_catalogRows.mp hm
  have hid : entityId a (functionLocal (functionKey J)) =
      entityId a (functionLocal (functionKey K)) := hid
  obtain ⟨_, hlocal⟩ := entityId_inj hlength hlength (colon_mem_functionLocal _)
    (colon_mem_functionLocal _) hid
  obtain rfl := functionKey_inj (functionLocal_inj hlocal)
  rw [Option.some.inj (hG.symm.trans hF)]

/-- **A catalog writes the row of every function** into its artifact. -/
theorem hasRow_upsertAll {M : Module} {K : Nat} {F : Function}
    (hlength : (shortHash a.contentSha256).length = 16) (hF : M.functions[K]? = some F)
    (hd : F.isDeclaration = false) (ms : List Materialization) :
    ∃ m ∈ upsertAll Materialization.pair Materialization.recatalog
      (materializationRows a (catalog M)) ms, m.artifactId = a.id ∧
      m.functionId = entityId a (functionLocal (functionKey K)) ∧ m.status ≠ .declarationOnly := by
  have hpair : ∀ n m, Materialization.pair (Materialization.recatalog n m) = m.pair :=
    fun _ _ => rfl
  have hentry : (catalogEntry F K).materializationRow a ∈ materializationRows a (catalog M) :=
    mem_catalogRows.mpr ⟨K, F, hF, rfl⟩
  have hready : ((catalogEntry F K).materializationRow a).status ≠ .declarationOnly := by
    unfold FunctionRecord.materializationRow
    simp [catalogEntry, hd]
  obtain ⟨m, hm⟩ := exists_lookup_upsertAll hpair (t := ms)
    (Or.inl (List.mem_map_of_mem (f := Materialization.pair) hentry))
  have hkey : m.pair = (a.id, entityId a (functionLocal (functionKey K))) := key_of_lookup hm
  obtain ⟨hart, hhandle⟩ := Prod.mk.inj hkey
  refine ⟨m, mem_of_lookup hm, hart, hhandle, ?_⟩
  rcases of_mem_upsertAll hpair (mem_of_lookup hm) with ⟨_, hne⟩ | ⟨new, hnew, hnewpair, hstatus⟩
  · exact absurd hkey.symm (hne _ hentry)
  · obtain rfl := catalogRow_eq hlength hF hnew (Prod.mk.inj (hnewpair.trans hkey)).2
    rcases hstatus with rfl | ⟨m₀, _, rfl⟩
    · exact hready
    · exact hready

/-- **A published catalog keeps the roster**: its own artifact gets all rows, and the rows of
    the other artifacts have other keys. -/
theorem Rostered.publishCatalog {db db' : Database} (h : Rostered modules db.toTables)
    (hnamed : ∀ a ∈ db.artifacts, a.WellNamed) (hst : db.Stores a) {io : Faults} {run : String}
    {module : ModuleRecord} {endedAt : Time}
    (hp : Irez.publishCatalog io a run module (catalog (modules a.id)) endedAt db = .ok db') :
    Rostered modules db'.toTables := by
  obtain ⟨harts, _, hmats⟩ := publishCatalog_claims hp
  have hpair : ∀ n m, Materialization.pair (Materialization.recatalog n m) = m.pair :=
    fun _ _ => rfl
  have howned : ∀ m ∈ materializationRows a (catalog (modules a.id)), m.pair.1 = a.id := by
    intro m hm
    obtain ⟨J, G, _, rfl⟩ := mem_catalogRows.mp hm
    rfl
  obtain ⟨c, hc, hcid, hcsha⟩ := hst
  intro b hb hlisted K F hF hd
  rw [harts] at hb
  obtain ⟨b₀, hb₀, hrow⟩ := mem_updateWhere.mp hb
  by_cases hba : b₀.id = a.id
  · rw [if_pos (decide_eq_true hba)] at hrow
    obtain rfl := List.inj_on_of_nodup_map db.constraints.artifactKey hb₀ hc (hba.trans hcid.symm)
    have hbid : b.id = a.id := by
      rw [hrow]
      exact hba
    have hbsha : b.contentSha256 = a.contentSha256 := by
      rw [hrow]
      exact hcsha
    have hlength : (shortHash a.contentSha256).length = 16 := by
      rw [← hcsha]
      exact (hnamed _ hc).length
    rw [hbid] at hF
    obtain ⟨m, hm, hart, hhandle, hready⟩ := hasRow_upsertAll hlength hF hd db.materializations
    rw [← hmats] at hm
    exact ⟨m, hm, hart.trans hbid.symm, hhandle.trans (entityId_congr hbsha.symm _), hready⟩
  · rw [if_neg (by simpa using hba)] at hrow
    rw [hrow] at hlisted hF ⊢
    have hlist : db.Listed b₀ := by
      refine hlisted.imp_right fun hrows => ?_
      obtain ⟨m, hm, hart⟩ := hrows
      rw [hmats] at hm
      rcases of_mem_upsertAll hpair hm with ⟨hm, _⟩ | ⟨new, hnew, hnewpair, _⟩
      · exact ⟨m, hm, hart⟩
      · exact absurd (hart.symm.trans ((congrArg Prod.fst hnewpair).symm.trans (howned new hnew))) hba
    obtain ⟨m, hm, hart, hhandle, hst'⟩ := h b₀ hb₀ hlist K F hF hd
    refine ⟨m, ?_, hart, hhandle, hst'⟩
    rw [hmats]
    refine mem_upsertAll_of_ne hm fun new hnew hsame => ?_
    exact hba (hart.symm.trans ((congrArg Prod.fst hsame).symm.trans (howned new hnew)))

variable {w w' : World}

/-- **One step keeps the roster**, where the catalogs published are those of the modules. -/
theorem Rostered.step (h : Rostered modules w.db.toTables) (hg : Grounded w) {l : Label}
    (hs : World.Step w l w') (hC : catalogsOf modules w l) : Rostered modules w'.db.toTables := by
  have hpair : ∀ {s s' : Statement}, s.KeepsRoster → s'.KeepsRoster →
      ∀ x ∈ [s, s'], x.KeepsRoster := fun hs hs' =>
    List.forall_mem_cons.mpr ⟨hs, List.forall_mem_singleton.mpr hs'⟩
  cases hs with
  | tick | enter | ingest | leave => exact h
  | @init row db' _ ht =>
    show Rostered modules db'.toTables
    rw [ht]
    exact h
  | @store io a db' ha hs he =>
    have ht := exec_ok he
    show Rostered modules db'.toTables
    have hc := db'.constraints
    rw [ht] at hc ⊢
    exact h.insertArtifact hs.status w.db.constraints hc
  | @mark io s db' hm he =>
    show Rostered modules db'.toTables
    rw [exec_ok he]
    obtain ⟨id, rfl | rfl⟩ := hm
    · exact h.effect trivial
    · exact h.effect trivial
  | @claim p io d target db' hp hd hc =>
    obtain ⟨run, _, ht⟩ := claimFunction_effects hc
    show Rostered modules db'.toTables
    rw [ht]
    exact h.effects (hpair trivial trivial)
  | @publish p io d target draw records db' hp he =>
    obtain ⟨_, _, _, _, _, ht⟩ := Publish.exec_ok he
    show Rostered modules db'.toTables
    rw [ht]
    refine (h.effects (forall_replaceStatements.mpr ⟨trivial, trivial, trivial,
      fun _ _ => trivial⟩)).effects (Publish.forall_writeStatements.mpr ⟨fun _ _ _ => trivial,
        fun _ _ => trivial, fun _ _ => trivial, trivial, trivial, fun _ _ => trivial, trivial,
        trivial⟩)
  | @fail p io d target message endedAt db' hp he =>
    show Rostered modules db'.toTables
    rw [transaction_ok he]
    exact h.effects (hpair trivial trivial)
  | @claimCatalog p io d a index db' hp hd hc =>
    obtain ⟨run, _, ht⟩ := claimCatalog_effects hc
    show Rostered modules db'.toTables
    rw [ht]
    exact h.effects (List.forall_mem_cons.mpr ⟨trivial, hpair trivial trivial⟩)
  | @publishCatalog p io d a module records endedAt db' hp he =>
    rw [hC a d hp] at he
    exact h.publishCatalog hg.rooted.artifacts (hg.stores p a (by rw [hp]; rfl)) he
  | @failCatalog p io d a message endedAt db' hp he =>
    show Rostered modules db'.toTables
    rw [transaction_ok he]
    exact h.effects (hpair trivial trivial)

theorem World.Initial.rostered (h : w.Initial) : Rostered modules w.db.toTables := by
  intro a ha
  rw [h.artifacts] at ha
  exact absurd ha List.not_mem_nil

end Rostered

end Irez
