/-
  File:      Irez/Leases.lean
  Subject:   The claim columns of `materializations` and `artifacts`: a claim is a status,
             an owner and a moment together, and ten minutes later nobody is refused for it.

  * `World.Step.issued` -- what one step does to the tables is a run of statements, and
    the rows it inserts are those of `ingest_file` and of a catalog;
  * `WellClaimed` -- the three columns agree; one statement, one step and every run of any
    number of processes keep it;
  * `materialize_not_busy`, `indexArtifact_busy` -- a call on a row whose claim is old is
    not refused at that row;
  * `claims_well_formed_and_never_stick` -- both, in every world reached.
-/
import Irez.System
import Irez.Calls

open Irez.Basis

namespace Irez

/-! ## 1. A step as statements -/

/-- The statements the transactions issue: inserted rows hold no claim. -/
def Statement.Issued : Statement → Prop
  | .insertArtifact row => row.Inserted
  | .upsertMaterialization row => ∃ (a : Artifact) (f : FunctionRecord), row = f.materializationRow a
  | _ => True

theorem publishCatalogStatements_issued (a : Artifact) (run : String) (module : ModuleRecord)
    (records : List Record) (endedAt : Time) :
    ∀ s ∈ publishCatalogStatements a run module records endedAt, s.Issued := by
  intro s hs
  unfold publishCatalogStatements at hs
  rw [List.mem_append, List.mem_append, List.mem_singleton, List.mem_singleton] at hs
  rcases hs with (rfl | hs) | rfl
  · trivial
  · obtain ⟨f, _, hs⟩ := List.mem_flatMap.mp hs
    simp only [FunctionRecord.statements, List.mem_cons, List.not_mem_nil, or_false] at hs
    rcases hs with rfl | rfl | rfl
    · trivial
    · exact ⟨a, f, rfl⟩
    · trivial
  · trivial

theorem Publish.statements_issued (p : Publish) (ids : String → Option String) :
    ∀ s ∈ replaceStatements p.target p.entities ++ p.writeStatements ids, s.Issued := by
  intro s hs
  unfold replaceStatements writeStatements ownerStatements at hs
  simp only [List.mem_append, List.mem_map, List.mem_cons, List.not_mem_nil, or_false] at hs
  rcases hs with ((rfl | rfl | rfl) | ⟨e, _, rfl⟩) |
    ((((⟨e, _, rfl⟩ | ⟨r, _, rfl⟩) | ⟨q, _, rfl⟩) | rfl | rfl) | ⟨c, _, rfl⟩) | rfl | rfl
  all_goals trivial

/-- **One step runs issued statements**; only `Store::initialize` writes the investigation. -/
theorem World.Step.issued {w w' : World} {l : Label} (hs : World.Step w l w') :
    (∃ row, w'.db.toTables = { w.db.toTables with investigations := [row] }) ∨
      ∃ ss, (∀ s ∈ ss, s.Issued) ∧ w'.db.toTables = effects ss w.db.toTables := by
  have hnone : ∀ s ∈ ([] : List Statement), s.Issued := fun _ h => absurd h List.not_mem_nil
  cases hs with
  | tick _ => exact .inr ⟨[], hnone, rfl⟩
  | init _ ht => exact .inl ⟨_, ht⟩
  | @store _ a _ _ ha he =>
    refine .inr ⟨[.insertArtifact a], fun s hs => ?_, exec_ok he⟩
    rw [List.mem_singleton.mp hs]
    exact ha
  | @mark _ s _ hm he =>
    refine .inr ⟨[s], fun s' hs' => ?_, exec_ok he⟩
    rw [List.mem_singleton.mp hs']
    obtain ⟨id, rfl | rfl⟩ := hm
    · trivial
    · trivial
  | enter _ _ => exact .inr ⟨[], hnone, rfl⟩
  | claim _ _ hc =>
    obtain ⟨run, _, ht⟩ := claimFunction_effects hc
    refine .inr ⟨_, fun s hs => ?_, ht⟩
    simp only [List.mem_cons, List.not_mem_nil, or_false] at hs
    rcases hs with rfl | rfl
    · trivial
    · trivial
  | publish _ he =>
    obtain ⟨_, _, _, _, _, ht⟩ := Publish.exec_ok he
    rw [← effects_append] at ht
    exact .inr ⟨_, Publish.statements_issued _ _, ht⟩
  | fail _ he =>
    refine .inr ⟨_, fun s hs => ?_, transaction_ok he⟩
    simp only [failFunctionStatements, List.mem_cons, List.not_mem_nil, or_false] at hs
    rcases hs with rfl | rfl
    · trivial
    · trivial
  | ingest _ _ => exact .inr ⟨[], hnone, rfl⟩
  | claimCatalog _ _ hc =>
    obtain ⟨run, _, ht⟩ := claimCatalog_effects hc
    refine .inr ⟨_, fun s hs => ?_, ht⟩
    simp only [List.mem_cons, List.not_mem_nil, or_false] at hs
    rcases hs with rfl | rfl | rfl
    · trivial
    · trivial
    · trivial
  | publishCatalog _ he =>
    exact .inr ⟨_, publishCatalogStatements_issued _ _ _ _ _, transaction_ok he⟩
  | failCatalog _ he =>
    refine .inr ⟨_, fun s hs => ?_, transaction_ok he⟩
    simp only [failCatalogStatements, List.mem_cons, List.not_mem_nil, or_false] at hs
    rcases hs with rfl | rfl
    · trivial
    · trivial
  | leave => exact .inr ⟨[], hnone, rfl⟩

/-! ## 2. The three columns agree -/

/-- A row is claimed in all three columns or in none. -/
def Materialization.WellClaimed (m : Materialization) : Prop :=
  (m.status = .materializing ↔ m.claimOwner.isSome = true) ∧
    (m.claimOwner.isSome = true ↔ m.claimStartedAt.isSome = true)

def Artifact.WellClaimed (a : Artifact) : Prop :=
  (a.catalogStatus = .cataloging ↔ a.catalogClaimOwner.isSome = true) ∧
    (a.catalogClaimOwner.isSome = true ↔ a.catalogClaimStartedAt.isSome = true)

instance (m : Materialization) : Decidable m.WellClaimed := inferInstanceAs (Decidable (_ ∧ _))

instance (a : Artifact) : Decidable a.WellClaimed := inferInstanceAs (Decidable (_ ∧ _))

structure WellClaimed (t : Tables) : Prop where
  materializations : ∀ m ∈ t.materializations, m.WellClaimed
  artifacts : ∀ a ∈ t.artifacts, a.WellClaimed

namespace WellClaimed

/-- The row a catalog writes has no claim, and neither has the row it refreshes. -/
theorem of_catalog (a : Artifact) (f : FunctionRecord) :
    (f.materializationRow a).WellClaimed ∧
      ∀ m, ((f.materializationRow a).recatalog m).WellClaimed := by
  unfold Materialization.WellClaimed Materialization.recatalog FunctionRecord.materializationRow
  cases f.declaration <;> simp

variable {t : Tables}

theorem of_materializations (h : WellClaimed t) {p : Materialization → Bool}
    {g : Materialization → Materialization} (hg : ∀ m, m.WellClaimed → (g m).WellClaimed) :
    WellClaimed { t with materializations := updateWhere p g t.materializations } where
  materializations m hm := by
    obtain ⟨m₀, hm₀, rfl⟩ := mem_updateWhere.mp hm
    have := h.materializations m₀ hm₀
    split
    · exact hg m₀ this
    · exact this
  artifacts := h.artifacts

theorem of_artifacts (h : WellClaimed t) {p : Artifact → Bool} {g : Artifact → Artifact}
    (hg : ∀ a, a.WellClaimed → (g a).WellClaimed) :
    WellClaimed { t with artifacts := updateWhere p g t.artifacts } where
  materializations := h.materializations
  artifacts a ha := by
    obtain ⟨a₀, ha₀, rfl⟩ := mem_updateWhere.mp ha
    have := h.artifacts a₀ ha₀
    split
    · exact hg a₀ this
    · exact this

/-- **One statement keeps the claim columns together.** -/
theorem effect (h : WellClaimed t) {s : Statement} (hs : s.Issued) : WellClaimed (s.effect t) := by
  cases s with
  | insertArtifact row =>
    refine ⟨h.materializations, fun a ha => ?_⟩
    rcases List.mem_append.mp ha with ha | ha
    · exact h.artifacts a ha
    · obtain ⟨hstatus, howner, hstart, _⟩ := hs
      rw [List.mem_singleton.mp ha]
      simp [Artifact.WellClaimed, hstatus, howner, hstart]
  | upsertMaterialization row =>
    obtain ⟨a, f, rfl⟩ := hs
    obtain ⟨hrow, hold⟩ := of_catalog a f
    refine ⟨?_, h.artifacts⟩
    show ∀ m ∈ upsertAll Materialization.pair Materialization.recatalog [f.materializationRow a]
      t.materializations, m.WellClaimed
    refine forall_upsertAll h.materializations ?_ ?_
    · intro new hnew
      rw [List.mem_singleton.mp hnew]
      exact hrow
    · intro new hnew m _
      rw [List.mem_singleton.mp hnew]
      exact hold m
  | claimFunction | failFunction | publishFunction =>
    refine h.of_materializations fun m _ => ?_
    simp [Materialization.WellClaimed, Materialization.claimed, Materialization.failed,
      Materialization.published]
  | claimCatalog | failArtifact | publishArtifact =>
    refine h.of_artifacts fun a _ => ?_
    simp [Artifact.WellClaimed, Artifact.claimed, Artifact.failed, Artifact.published]
  | requestFull | setCatalogRun | completeFull => exact h.of_artifacts fun a ha => ha
  | _ => exact ⟨h.materializations, h.artifacts⟩

/-- **A run of statements keeps them together.** -/
theorem effects {ss : List Statement} (h : WellClaimed t) (hs : ∀ s ∈ ss, s.Issued) :
    WellClaimed (Irez.effects ss t) :=
  effects_invariant h fun s hmem _ h => h.effect (hs s hmem)

/-- **One step of any process keeps them together.** -/
theorem step {w w' : World} {l : Label} (h : WellClaimed w.db.toTables) (hs : World.Step w l w') :
    WellClaimed w'.db.toTables := by
  rcases hs.issued with ⟨row, ht⟩ | ⟨ss, hss, ht⟩
  · rw [ht]
    exact ⟨h.materializations, h.artifacts⟩
  · rw [ht]
    exact h.effects hss

end WellClaimed

theorem Runs.wellClaimed {C : Condition} {w : World} (h : Runs C w) : WellClaimed w.db.toTables := by
  refine @Runs.invariant C (fun w => WellClaimed w.db.toTables) (fun w hw => ⟨?_, ?_⟩) ?_ w h
  · intro m hm
    rw [hw.materializations] at hm
    cases hm
  · intro a ha
    rw [hw.artifacts] at ha
    cases ha
  · intro w w' l hi hs _
    exact hi.step hs

/-! ## 3. An old claim is no obstacle -/

/-- A claim of ten minutes ago, or none. -/
def OldClaim (startedAt : Option Time) (now : Time) : Prop :=
  ∀ s, startedAt = some s → s + tenMinutes < now

theorem staleClaim_of_old {startedAt : Option Time} {now : Time} (h : OldClaim startedAt now)
    (hs : startedAt.isSome = true) : staleClaim startedAt now = true := by
  obtain ⟨s, rfl⟩ := Option.isSome_iff_exists.mp hs
  unfold staleClaim
  rw [Option.any_some, decide_eq_true_iff]
  exact h s rfl

theorem Materialization.WellClaimed.claimable {m : Materialization} (h : m.WellClaimed) {now : Time}
    (hold : OldClaim m.claimStartedAt now) : m.claimable now = true := by
  unfold Materialization.claimable
  by_cases hst : m.status = .materializing
  · rw [staleClaim_of_old hold (h.2.mp (h.1.mp hst)), Bool.or_true]
  · rw [decide_eq_true hst, Bool.true_or]

theorem Artifact.WellClaimed.claimable {a : Artifact} (h : a.WellClaimed) {now : Time}
    (hold : OldClaim a.catalogClaimStartedAt now) : a.claimable now = true := by
  unfold Artifact.claimable
  by_cases hst : a.catalogStatus = .cataloging
  · rw [staleClaim_of_old hold (h.2.mp (h.1.mp hst)), Bool.or_true]
  · rw [decide_eq_true hst, Bool.true_or]

/-- The claim meets the one row of its function. -/
theorem claimableFunctions_eq_one {t : Tables} {m : Materialization} {now : Time}
    (hkey : Keyed Materialization.functionId t.materializations) (hm : m ∈ t.materializations)
    (hc : m.claimable now = true) : t.claimableFunctions m.functionId now = 1 := by
  unfold Tables.claimableFunctions
  simp only [Bool.and_comm (decide _), ← List.filter_filter]
  rw [hkey.filter_eq hm, List.filter_cons_of_pos hc]
  rfl

theorem claimableArtifacts_eq_one {t : Tables} {a : Artifact} {now : Time}
    (hkey : Keyed Artifact.id t.artifacts) (ha : a ∈ t.artifacts) (hc : a.claimable now = true) :
    t.claimableArtifacts a.id now = 1 := by
  unfold Tables.claimableArtifacts
  simp only [Bool.and_comm (decide _), ← List.filter_filter]
  rw [hkey.filter_eq ha, List.filter_cons_of_pos hc]
  rfl

/-! ## 4. Which exits are Busy -/

theorem investigationId_not_busy {t : Tables} {e : Thrown} (h : investigationId t = .error e) :
    e.isBusy = false := by
  unfold investigationId at h
  split at h
  · cases h
  · cases h
    rfl

theorem enter_not_busy {t : Tables} {handle : String} {refresh : Bool} {e : Thrown}
    (h : enter t handle refresh = .error e) : e.isBusy = false := by
  have hans : ∀ (r : Entry), (investigationId t).map (fun _ => r) = .error e →
      e.isBusy = false := by
    intro r hr
    cases hi : investigationId t with
    | error e' =>
      rw [hi] at hr
      cases hr
      exact investigationId_not_busy hi
    | ok inv =>
      rw [hi] at hr
      cases hr
  unfold enter at h
  split at h
  · cases h
    rfl
  · split at h
    · rename_i e' ha
      cases h
      unfold artifactOrThrow at ha
      split at ha
      · cases ha
      · cases ha
        rfl
    · dsimp only at h
      split at h
      · exact hans _ h
      · split at h
        · exact hans _ h
        · cases h

/-- The claim is Busy only where it does not meet one row. -/
theorem claimFunction_not_busy {io : Faults} {d : ClaimDraw} {target : Target} {db : Database}
    {e : Thrown} (hone : db.claimableFunctions target.handle d.now = 1)
    (h : claimFunction io d target db = .error e) : e.isBusy = false := by
  unfold claimFunction at h
  split at h
  · rename_i he
    cases h
    exact exec_not_busy he
  · rw [if_neg (not_not.mpr hone)] at h
    split at h
    · rename_i he
      cases h
      exact investigationId_not_busy he
    · exact transaction_not_busy h

theorem claimCatalog_not_busy {io : Faults} {d : ClaimDraw} {a : Artifact} {index : IndexLevel}
    {db : Database} {e : Thrown} (hone : db.claimableArtifacts a.id d.now = 1)
    (h : claimCatalog io d a index db = .error e) : e.isBusy = false := by
  unfold claimCatalog at h
  split at h
  · rename_i he
    cases h
    exact exec_not_busy he
  · rw [if_neg (not_not.mpr hone)] at h
    split at h
    · rename_i he
      cases h
      exact investigationId_not_busy he
    · exact transaction_not_busy h

theorem failWith_not_busy {io : Faults} {target : Target} {d : MaterializeDraw} {e e' : Thrown}
    {db db' : Database} (he : e.isBusy = false)
    (h : failWith io target d e db = (db', .error e')) : e'.isBusy = false := by
  unfold failWith at h
  split at h
  · cases h
    exact he
  · rename_i hf
    cases h
    exact transaction_not_busy hf

theorem failCatalogWith_not_busy {io : Faults} {id : String} {d : CatalogDraw} {e e' : Thrown}
    {db db' : Database} (he : e.isBusy = false)
    (h : failCatalogWith io id d e db = (db', .error e')) : e'.isBusy = false := by
  unfold failCatalogWith at h
  split at h
  · cases h
    exact he
  · rename_i hf
    cases h
    exact transaction_not_busy hf

/-- **A `materialize` whose function has a claimable row is not Busy.** -/
theorem materialize_not_busy {env : Environment} {graph : String → String → Outcome}
    {d : MaterializeDraw} {handle : String} {refresh : Bool} {db db' : Database} {e : Thrown}
    (hone : db.claimableFunctions handle d.claim.now = 1)
    (h : materialize env graph d handle refresh db = (db', .error e)) : e.isBusy = false := by
  unfold materialize at h
  split at h
  · rename_i he
    cases h
    exact enter_not_busy he
  · cases h
  · rename_i target hent
    split at h
    · rename_i he
      cases h
      refine claimFunction_not_busy ?_ he
      rw [(enter_analyse hent).2.1]
      exact hone
    · unfold finish at h
      split at h
      · rename_i he
        exact failWith_not_busy (accept_not_busy he) h
      · split at h
        · rename_i he
          exact failWith_not_busy (Publish.exec_not_busy he) h
        · cases h

/-- **A catalog phase whose artifact is claimable is not Busy.** -/
theorem refreshCatalog_not_busy {env : Environment} {graph : String → Outcome} {d : CatalogDraw}
    {a : Artifact} {index : IndexLevel} {db db' : Database} {e : Thrown}
    (hone : db.claimableArtifacts a.id d.claim.now = 1)
    (h : refreshCatalog env graph d a index db = (db', .error e)) : e.isBusy = false := by
  unfold refreshCatalog at h
  split at h
  · rename_i he
    cases h
    exact claimCatalog_not_busy hone he
  · unfold finishCatalog at h
    split at h
    · rename_i he
      refine failCatalogWith_not_busy ?_ h
      unfold acceptCatalog at he
      split at he
      · rename_i hacc
        cases he
        exact accept_not_busy hacc
      · split at he
        · cases he
          rfl
        · cases he
    · split at h
      · rename_i he
        cases h
        exact investigationId_not_busy he
      · split at h
        · rename_i he
          exact failCatalogWith_not_busy (transaction_not_busy he) h
        · cases h

/-! ## 5. The whole of a refreshing ingest -/

/-- A `materialize` call of the full index loop that is refused. -/
def LoopBusy (env : Environment) (adapter : Adapter) (d : IngestDraw) (handles : List String)
    (e : Thrown) : Prop :=
  ∃ handle ∈ handles, ∃ db₁ db₂,
    materialize env adapter.functionGraph (d.materialize handle) handle false db₁ = (db₂, .error e)

theorem materializeAll_error {env : Environment} {adapter : Adapter} {d : IngestDraw}
    {handles : List String} {db db' : Database} {e : Thrown}
    (h : materializeAll env adapter.functionGraph d.materialize handles db = (db', .error e)) :
    LoopBusy env adapter d handles e := by
  induction handles generalizing db with
  | nil => cases h
  | cons handle rest ih =>
    unfold materializeAll at h
    split at h
    · rename_i db₁ e' hm
      cases h
      exact ⟨handle, List.mem_cons_self, db, _, hm⟩
    · obtain ⟨handle', hmem, hcall⟩ := ih h
      exact ⟨handle', List.mem_cons_of_mem _ hmem, hcall⟩

/-- **A refreshing `ingest` of a claimable artifact is not refused at the artifact**: where it
    is Busy, it is so for a function of its full index. -/
theorem indexArtifact_busy {env : Environment} {adapter : Adapter} {d : IngestDraw} {a : Artifact}
    {created : Bool} {index : IndexLevel} {db db' : Database} {e : Thrown}
    (hone : db.claimableArtifacts a.id d.catalog.claim.now = 1)
    (h : indexArtifact env adapter d a created index true db = (db', .error e))
    (hbusy : e.isBusy = true) :
    index = .full ∧ ∃ db₂ : Database, LoopBusy env adapter d (db₂.definedFunctions a.id) e := by
  have hno : ∀ {e' : Thrown}, e'.isBusy = false → e' = e → False := by
    intro e' he' heq
    rw [heq, hbusy] at he'
    cases he'
  have hmark : ∀ db₁ : Database,
      (if index = .full then exec env.claim (.requestFull a.id) db else .ok db) = .ok db₁ →
      db₁.claimableArtifacts a.id d.catalog.claim.now = 1 := by
    intro db₁ h₁
    split at h₁
    · unfold Tables.claimableArtifacts
      rw [exec_ok h₁]
      show (List.filter _ (updateWhere _ _ db.artifacts)).length = 1
      unfold updateWhere
      rw [List.filter_map, List.length_map, ← hone]
      unfold Tables.claimableArtifacts
      congr 2
      funext x
      simp only [Function.comp]
      split
      · rfl
      · rfl
    · cases h₁
      exact hone
  unfold indexArtifact at h
  split at h
  · rename_i he
    cases h
    split at he
    · exact (hno (exec_not_busy he) rfl).elim
    · cases he
  · rename_i db₁ h₁
    simp only [Bool.or_true, Bool.true_or, if_true] at h
    split at h
    · rename_i db₂ e' he
      cases h
      exact (hno (refreshCatalog_not_busy (hmark _ h₁) he) rfl).elim
    · rename_i db₂ _ _
      split at h
      · rename_i he
        cases h
        exact (hno (investigationId_not_busy he) rfl).elim
      · split at h
        · rename_i db₃ e' he
          cases h
          split at he
          · rename_i hfull
            exact ⟨hfull, db₂, materializeAll_error he⟩
          · cases he
        · split at h
          · rename_i he
            cases h
            split at he
            · exact (hno (exec_not_busy he) rfl).elim
            · cases he
          · cases h

/-! ## 6. Every world reached -/

/-- **Claims are well formed and never stick.** In every world reached by any number of
    processes the three claim columns of every row agree, and more than ten minutes after the
    last claim on a row no `materialize` and no refreshing `ingest` is refused at it. -/
theorem claims_well_formed_and_never_stick {w : World} (h : Runs anyStep w) :
    WellClaimed w.db.toTables ∧
    (∀ m ∈ w.db.materializations, ∀ env graph (d : MaterializeDraw) refresh db' e,
      OldClaim m.claimStartedAt d.claim.now →
      materialize env graph d m.functionId refresh w.db = (db', .error e) → e.isBusy = false) ∧
    (∀ row ∈ w.db.artifacts, ∀ env adapter (d : IngestDraw) (a : Artifact) created index db' e,
      a.id = row.id → OldClaim row.catalogClaimStartedAt d.catalog.claim.now →
      indexArtifact env adapter d a created index true w.db = (db', .error e) → e.isBusy = true →
      index = .full ∧ ∃ db₂ : Database, LoopBusy env adapter d (db₂.definedFunctions a.id) e) := by
  have hwell := h.wellClaimed
  refine ⟨hwell, ?_, ?_⟩
  · intro m hm env graph d refresh db' e hold hrun
    refine materialize_not_busy ?_ hrun
    exact claimableFunctions_eq_one (h.grounded.rooted.keyed w.db.constraints) hm
      ((hwell.materializations m hm).claimable hold)
  · intro row hrow env adapter d a created index db' e hid hold hrun hbusy
    refine indexArtifact_busy ?_ hrun hbusy
    rw [hid]
    exact claimableArtifacts_eq_one w.db.constraints.artifactKey hrow
      ((hwell.artifacts row hrow).claimable hold)

/-- A call of the process `2` at the moment `now`. -/
def Scenario.attempt (now : Time) : MaterializeDraw :=
  ⟨Sample.claimDraw "b" "b" now, ⟨fun _ => now, now⟩, now⟩

/-- A function claimed at the moment 1 and never released: refused at 2, and analysed later. -/
theorem claims_well_formed_and_never_stick_claimed :
    WellClaimed Scenario.claimed.db.toTables ∧
    (∃ db' e, materialize Sample.environment (fun _ _ => .error "bad_alloc") (Scenario.attempt 2)
      Scenario.handle true Scenario.claimed.db = (db', .error e) ∧ e.isBusy = true) ∧
    (∃ db' e, materialize Sample.environment (fun _ _ => .error "bad_alloc")
      (Scenario.attempt 700000) Scenario.handle true Scenario.claimed.db = (db', .error e) ∧
      e.isBusy = false) := by
  have hruns : Runs anyStep Scenario.claimed :=
    Scenario.claimed_runs (Scenario.catalogued_runs (fun _ => trivial) (fun _ _ => trivial) trivial)
      (fun _ => trivial) fun _ _ => trivial
  obtain ⟨hwell, hmat, _⟩ := claims_well_formed_and_never_stick hruns
  refine ⟨hwell, ⟨_, _, rfl, rfl⟩, ?_⟩
  obtain ⟨m, hm, hid, hstart⟩ : ∃ m ∈ Scenario.claimed.db.materializations,
      m.functionId = Scenario.handle ∧ m.claimStartedAt = some 1 :=
    ⟨_, List.mem_singleton.mpr rfl, rfl, rfl⟩
  have hold : OldClaim m.claimStartedAt (Scenario.attempt 700000).claim.now := by
    intro s hs
    rw [hstart] at hs
    cases hs
    show (1 : Nat) + 600000 < 700000
    omega
  have hrun : ∃ db' e, materialize Sample.environment (fun _ _ => .error "bad_alloc")
      (Scenario.attempt 700000) m.functionId true Scenario.claimed.db = (db', .error e) := by
    rw [hid]
    exact ⟨_, _, rfl⟩
  obtain ⟨db', e, hrun⟩ := hrun
  have hbusy := hmat m hm _ _ _ _ _ _ hold hrun
  rw [hid] at hrun
  exact ⟨db', e, hrun, hbusy⟩

end Irez
