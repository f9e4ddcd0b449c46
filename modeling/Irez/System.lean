/-
  File:      Irez/System.lean
  Subject:   Any number of processes on one database: `materialize`, `ingest` and `reindex`
             as runs of atomic transactions, with any delay between them.

  A process is between two transactions in a `Phase`: it has read its target, it has
  committed a claim and runs the adapter, or it does nothing. A step commits one
  transaction of one process, lets the clock advance or lets a process go (an exception
  that leaves the call, or a crash).

  * `World.Step` -- the steps, each with a label that names the process and its records;
  * `Runs C` -- the worlds reached by steps that meet the condition `C`;
  * `materialize_steps`, `refreshCatalog_steps` -- a call that nobody disturbs is a run;
  * `Grounded` -- rows of `materializations` belong to stored artifacts, one row a function;
    the uuids and runs of processes under way are their own (`Runs.grounded`).
-/
import Irez.Refresh
import Mathlib.Logic.Function.Basic
import Mathlib.Logic.Relation

open Irez.Basis

namespace Irez

/-! ## 1. Processes -/

/-- What a process holds between two of its transactions. -/
inductive Phase where
  | idle
  /-- `materialize` has read its target. -/
  | entered (target : Target)
  /-- Its claim is committed. -/
  | analysing (target : Target) (draw : ClaimDraw)
  /-- `ingest` has read its artifact. -/
  | ingesting (artifact : Artifact)
  /-- Its claim is committed. -/
  | cataloging (artifact : Artifact) (draw : ClaimDraw)

/-- The artifact's row as the process read it. -/
def Phase.artifact : Phase → Option Artifact
  | .idle => none
  | .entered target => some target.artifact
  | .analysing target _ => some target.artifact
  | .ingesting artifact => some artifact
  | .cataloging artifact _ => some artifact

/-- The claim of a process between its claim and its publish or failure. -/
def Phase.claim : Phase → Option ClaimDraw
  | .analysing _ d => some d
  | .cataloging _ d => some d
  | _ => none

structure World where
  db : Database
  now : Time
  /-- The uuids drawn for claims. -/
  issued : List String
  /-- The committed catalog claims, artifact and owner, the last one first. -/
  claims : List (String × String)
  phase : Nat → Phase

namespace World

variable (w : World)

def move (p : Nat) (phase : Phase) : World := { w with phase := Function.update w.phase p phase }

/-- What a claim draws: a uuid that no claim has, and moments of the clock. -/
structure Draws (d : ClaimDraw) : Prop where
  fresh : d.owner ∉ w.issued
  claimed : d.claimedAt ≤ d.now
  current : d.now = w.now

structure Initial : Prop where
  artifacts : w.db.artifacts = []
  materializations : w.db.materializations = []
  relations : w.db.relations = []
  sources : w.db.sourceLocations = []
  entities : w.db.entities = []
  idle : ∀ p, w.phase p = .idle

end World

/-! ## 2. Steps -/

/-- A row as `Store::ingest_file` inserts it: no claim, and no level. -/
structure Artifact.Inserted (a : Artifact) : Prop where
  status : a.catalogStatus = .stored
  owner : a.catalogClaimOwner = none
  startedAt : a.catalogClaimStartedAt = none
  level : a.completedIndexLevel = .none

/-- Which process commits what; `silent` are the steps no condition is about. -/
inductive Label where
  | silent
  | claim (p : Nat)
  | publish (p : Nat) (records : List Record)
  | fail (p : Nat)
  | claimCatalog (p : Nat)
  | publishCatalog (p : Nat) (records : List Record)
  | failCatalog (p : Nat)

inductive World.Step : World → Label → World → Prop where
  | tick {w : World} {later : Time} (h : w.now ≤ later) : World.Step w .silent { w with now := later }
  /-- `Store::initialize` on a state without an investigation. -/
  | init {w : World} {row : Investigation} {db' : Database} (hn : w.db.investigations = [])
      (h : db'.toTables = { w.db.toTables with investigations := [row] }) :
      World.Step w .silent { w with db := db' }
  | store {w : World} {io : Faults} {a : Artifact} {db' : Database} (ha : a.WellNamed)
      (hs : a.Inserted) (h : exec io (.insertArtifact a) w.db = .ok db') :
      World.Step w .silent { w with db := db' }
  /-- `requested_index_level` and `completed_index_level`. -/
  | mark {w : World} {io : Faults} {s : Statement} {db' : Database}
      (hs : ∃ id, s = .requestFull id ∨ s = .completeFull id) (h : exec io s w.db = .ok db') :
      World.Step w .silent { w with db := db' }
  | enter {w : World} {p : Nat} {handle : String} {refresh : Bool} {target : Target}
      (hp : w.phase p = .idle)
      (h : Irez.enter w.db.toTables handle refresh = .ok (.analyse target)) :
      World.Step w .silent (w.move p (.entered target))
  | claim {w : World} {p : Nat} {io : Faults} {d : ClaimDraw} {target : Target} {db' : Database}
      (hp : w.phase p = .entered target) (hd : w.Draws d)
      (h : claimFunction io d target w.db = .ok db') :
      World.Step w (.claim p) { w.move p (.analysing target d) with
        db := db', issued := d.owner :: w.issued }
  | publish {w : World} {p : Nat} {io : Faults} {d : ClaimDraw} {target : Target}
      {draw : PublishDraw} {records : List Record} {db' : Database}
      (hp : w.phase p = .analysing target d)
      (h : (Publish.of target d.runId d.owner draw records).exec io w.db = .ok db') :
      World.Step w (.publish p records) { w.move p .idle with db := db' }
  | fail {w : World} {p : Nat} {io : Faults} {d : ClaimDraw} {target : Target} {message : String}
      {endedAt : Time} {db' : Database} (hp : w.phase p = .analysing target d)
      (h : failFunction io target d.runId d.owner message endedAt w.db = .ok db') :
      World.Step w (.fail p) { w.move p .idle with db := db' }
  | ingest {w : World} {p : Nat} {a : Artifact} (hp : w.phase p = .idle)
      (ha : a ∈ w.db.artifacts) : World.Step w .silent (w.move p (.ingesting a))
  | claimCatalog {w : World} {p : Nat} {io : Faults} {d : ClaimDraw} {a : Artifact}
      {index : IndexLevel} {db' : Database} (hp : w.phase p = .ingesting a) (hd : w.Draws d)
      (h : Irez.claimCatalog io d a index w.db = .ok db') :
      World.Step w (.claimCatalog p) { w.move p (.cataloging a d) with
        db := db', issued := d.owner :: w.issued, claims := (a.id, d.owner) :: w.claims }
  | publishCatalog {w : World} {p : Nat} {io : Faults} {d : ClaimDraw} {a : Artifact}
      {module : ModuleRecord} {records : List Record} {endedAt : Time} {db' : Database}
      (hp : w.phase p = .cataloging a d)
      (h : Irez.publishCatalog io a d.runId module records endedAt w.db = .ok db') :
      World.Step w (.publishCatalog p records) { w.move p .idle with db := db' }
  | failCatalog {w : World} {p : Nat} {io : Faults} {d : ClaimDraw} {a : Artifact}
      {message : String} {endedAt : Time} {db' : Database} (hp : w.phase p = .cataloging a d)
      (h : Irez.failCatalog io a.id d.runId message endedAt w.db = .ok db') :
      World.Step w (.failCatalog p) { w.move p .idle with db := db' }
  | leave {w : World} {p : Nat} : World.Step w .silent (w.move p .idle)

/-- A condition on the transaction that is committed next. -/
abbrev Condition := World → Label → Prop

/-- A step that meets the condition. -/
def World.Next (C : Condition) (w w' : World) : Prop := ∃ l, World.Step w l w' ∧ C w l

/-- The worlds reached from an initial one. -/
def Runs (C : Condition) (w : World) : Prop :=
  ∃ w₀ : World, w₀.Initial ∧ Relation.ReflTransGen (World.Next C) w₀ w

/-- **What holds at first and is kept by every step holds in every world reached.** -/
theorem Runs.invariant {C : Condition} {I : World → Prop} (h₀ : ∀ w : World, w.Initial → I w)
    (hstep : ∀ {w l w'}, I w → World.Step w l w' → C w l → I w') {w : World} (h : Runs C w) : I w := by
  obtain ⟨w₀, hinit, hrun⟩ := h
  induction hrun with
  | refl => exact h₀ _ hinit
  | tail _ hnext ih =>
    obtain ⟨l, hs, hc⟩ := hnext
    exact hstep ih hs hc

theorem Runs.mono {C C' : Condition} (hC : ∀ w l, C w l → C' w l) {w : World} (h : Runs C w) :
    Runs C' w := by
  obtain ⟨w₀, hinit, hrun⟩ := h
  have hnext : World.Next C ≤ World.Next C' := by
    intro w w' h
    obtain ⟨l, hs, hc⟩ := h
    exact ⟨l, hs, hC w l hc⟩
  exact ⟨w₀, hinit, Relation.ReflTransGen.mono hnext _ _ hrun⟩

/-! ## 3. A call that nobody disturbs -/

/-- No condition. -/
def anyStep : Condition := fun _ _ => True

/-- The world after the process `p` has finished a call that left the database `db`. -/
structure World.Finished (w : World) (p : Nat) (db : Database) (w' : World) : Prop where
  run : Relation.ReflTransGen (World.Next anyStep) w w'
  db : w'.db = db
  idle : w'.phase p = .idle
  others : ∀ q, q ≠ p → w'.phase q = w.phase q

section Calls

variable {w w₁ : World} {p : Nat}

theorem World.Finished.refl (hp : w.phase p = .idle) : w.Finished p w.db w :=
  ⟨.refl, rfl, hp, fun _ _ => rfl⟩

/-- The steps of `p` go on: a step of `p` before the rest. -/
theorem World.Finished.head {l : Label} {db : Database} {w' : World} (hs : World.Step w l w₁)
    (ho : ∀ q, q ≠ p → w₁.phase q = w.phase q) (h : w₁.Finished p db w') : w.Finished p db w' where
  run := .head ⟨l, hs, trivial⟩ h.run
  db := h.db
  idle := h.idle
  others q hq := (h.others q hq).trans (ho q hq)

theorem move_phase (phase : Phase) : (w.move p phase).phase p = phase :=
  Function.update_self ..

theorem move_others (phase : Phase) {q : Nat} (hq : q ≠ p) :
    (w.move p phase).phase q = w.phase q :=
  Function.update_of_ne hq ..

/-- The process lets go of what it holds. -/
theorem World.Finished.leave : ∃ w', w.Finished p w.db w' := by
  refine ⟨_, .head (p := p) .leave ?_ (World.Finished.refl (move_phase .idle))⟩
  intro q hq
  exact move_others .idle hq

theorem failWith_steps {io : Faults} {target : Target} {d : MaterializeDraw} {e : Thrown}
    {db' : Database} {result : Except Thrown Materialized}
    (hp : w.phase p = .analysing target d.claim)
    (h : failWith io target d e w.db = (db', result)) : ∃ w', w.Finished p db' w' := by
  unfold failWith at h
  split at h
  · rename_i db₂ h₂
    cases h
    exact ⟨_, .head (.fail hp h₂) (fun q hq => move_others .idle hq)
      ⟨.refl, rfl, move_phase .idle, fun _ _ => rfl⟩⟩
  · cases h
    exact World.Finished.leave

theorem finish_steps {env : Environment} {target : Target} {d : MaterializeDraw}
    {outcome : Outcome} {db' : Database} {result : Except Thrown Materialized}
    (hp : w.phase p = .analysing target d.claim)
    (h : finish env target d outcome w.db = (db', result)) : ∃ w', w.Finished p db' w' := by
  unfold finish at h
  split at h
  · exact failWith_steps hp h
  · split at h
    · exact failWith_steps hp h
    · rename_i db₂ h₂
      cases h
      exact ⟨_, .head (.publish hp h₂) (fun q hq => move_others .idle hq)
        ⟨.refl, rfl, move_phase .idle, fun _ _ => rfl⟩⟩

/-- **A `materialize` call is a run of steps of its process.** -/
theorem materialize_steps {env : Environment} {graph : String → String → Outcome}
    {d : MaterializeDraw} {handle : String} {refresh : Bool} {db' : Database}
    {result : Except Thrown Materialized} (hp : w.phase p = .idle) (hd : w.Draws d.claim)
    (h : materialize env graph d handle refresh w.db = (db', result)) :
    ∃ w', w.Finished p db' w' := by
  unfold materialize at h
  split at h
  · cases h
    exact ⟨w, .refl hp⟩
  · cases h
    exact ⟨w, .refl hp⟩
  · rename_i target hent
    have hent' : World.Step w .silent (w.move p (.entered target)) := .enter hp hent
    split at h
    · cases h
      obtain ⟨w', hw'⟩ := @World.Finished.leave (w.move p (.entered target)) p
      exact ⟨w', .head hent' (fun q hq => move_others _ hq) hw'⟩
    · rename_i db₁ hc
      have hclaim : World.Step (w.move p (.entered target)) (.claim p)
          { (w.move p (.entered target)).move p (.analysing target d.claim) with
            db := db₁, issued := d.claim.owner :: w.issued } :=
        .claim (move_phase _) ⟨hd.fresh, hd.claimed, hd.current⟩ hc
      obtain ⟨w', hw'⟩ := finish_steps
        (w := { (w.move p (.entered target)).move p (.analysing target d.claim) with
            db := db₁, issued := d.claim.owner :: w.issued }) (move_phase _) h
      exact ⟨w', .head hent' (fun q hq => move_others _ hq)
        (.head hclaim (fun q hq => move_others _ hq) hw')⟩

theorem failCatalogWith_steps {io : Faults} {a : Artifact} {d : CatalogDraw} {e : Thrown}
    {db' : Database} {result : Except Thrown Unit} (hp : w.phase p = .cataloging a d.claim)
    (h : failCatalogWith io a.id d e w.db = (db', result)) : ∃ w', w.Finished p db' w' := by
  unfold failCatalogWith at h
  split at h
  · rename_i db₂ h₂
    cases h
    exact ⟨_, .head (.failCatalog hp h₂) (fun q hq => move_others .idle hq)
      ⟨.refl, rfl, move_phase .idle, fun _ _ => rfl⟩⟩
  · cases h
    exact World.Finished.leave

theorem finishCatalog_steps {env : Environment} {a : Artifact} {d : CatalogDraw}
    {outcome : Outcome} {db' : Database} {result : Except Thrown Unit}
    (hp : w.phase p = .cataloging a d.claim)
    (h : finishCatalog env a d outcome w.db = (db', result)) : ∃ w', w.Finished p db' w' := by
  unfold finishCatalog at h
  split at h
  · exact failCatalogWith_steps hp h
  · split at h
    · cases h
      exact World.Finished.leave
    · split at h
      · exact failCatalogWith_steps hp h
      · rename_i db₂ h₂
        cases h
        exact ⟨_, .head (.publishCatalog hp h₂) (fun q hq => move_others .idle hq)
          ⟨.refl, rfl, move_phase .idle, fun _ _ => rfl⟩⟩

/-- **The catalog phase of `ingest` is a run of steps of its process.** -/
theorem refreshCatalog_steps {env : Environment} {graph : String → Outcome} {d : CatalogDraw}
    {a : Artifact} {index : IndexLevel} {db' : Database} {result : Except Thrown Unit}
    (hp : w.phase p = .idle) (ha : a ∈ w.db.artifacts) (hd : w.Draws d.claim)
    (h : refreshCatalog env graph d a index w.db = (db', result)) : ∃ w', w.Finished p db' w' := by
  have hin : World.Step w .silent (w.move p (.ingesting a)) := .ingest hp ha
  unfold refreshCatalog at h
  split at h
  · cases h
    exact ⟨w, .refl hp⟩
  · rename_i db₁ hc
    have hclaim : World.Step (w.move p (.ingesting a)) (.claimCatalog p)
        { (w.move p (.ingesting a)).move p (.cataloging a d.claim) with
          db := db₁, issued := d.claim.owner :: w.issued,
          claims := (a.id, d.claim.owner) :: w.claims } :=
      .claimCatalog (move_phase _) ⟨hd.fresh, hd.claimed, hd.current⟩ hc
    obtain ⟨w', hw'⟩ := finishCatalog_steps
      (w := { (w.move p (.ingesting a)).move p (.cataloging a d.claim) with
          db := db₁, issued := d.claim.owner :: w.issued,
          claims := (a.id, d.claim.owner) :: w.claims }) (move_phase _) h
    exact ⟨w', .head hin (fun q hq => move_others _ hq)
      (.head hclaim (fun q hq => move_others _ hq) hw')⟩

end Calls

/-! ## 4. Rows of stored artifacts -/

/-- Rows of `materializations` are about functions of the artifact they name. -/
structure Rooted (t : Tables) : Prop where
  artifacts : ∀ a ∈ t.artifacts, a.WellNamed
  materializations : ∀ m ∈ t.materializations, ∃ a ∈ t.artifacts, a.id = m.artifactId ∧
    ∃ key, m.functionId = entityId a (functionLocal key)

/-- The statements that insert rows of `artifacts` and `materializations` name them so. -/
def Statement.Roots (a : Artifact) : Statement → Prop
  | .insertArtifact row => row.WellNamed
  | .upsertMaterialization row => row.artifactId = a.id ∧
    ∃ key, row.functionId = entityId a (functionLocal key)
  | _ => True

section Rooted

variable {t t' : Tables} {a : Artifact}

/-- **A function has one row.** -/
theorem Rooted.keyed (h : Rooted t) (hc : t.Constraints) :
    Keyed Materialization.functionId t.materializations := by
  refine List.Nodup.map_on (fun m hm m' hm' hf => ?_) (List.Nodup.of_map _ hc.materializationKey)
  obtain ⟨a, ha, haid, key, hkey⟩ := h.materializations m hm
  obtain ⟨b, hb, hbid, key', hkey'⟩ := h.materializations m' hm'
  have hid : entityId a (functionLocal key) = entityId b (functionLocal key') := by
    rw [← hkey, ← hkey', hf]
  obtain ⟨hshort, _⟩ := entityId_inj (h.artifacts a ha).length (h.artifacts b hb).length
    (colon_mem_functionLocal key) (colon_mem_functionLocal key') hid
  have hart : m.artifactId = m'.artifactId := by
    rw [← haid, ← hbid, (h.artifacts a ha).id, (h.artifacts b hb).id, hshort]
  exact List.inj_on_of_nodup_map hc.materializationKey hm hm' (Prod.ext hart hf)

/-- Rows may change in every column but the two that name them. -/
theorem Rooted.of_pairs (h : Rooted t) (ha : SameArtifacts t t')
    (hm : ∀ m' ∈ t'.materializations, ∃ m ∈ t.materializations, m.pair = m'.pair) :
    Rooted t' where
  artifacts := ha.wellNamed h.artifacts
  materializations m' hm' := by
    obtain ⟨m, hmt, hpair⟩ := hm m' hm'
    obtain ⟨a, hat, haid, key, hkey⟩ := h.materializations m hmt
    obtain ⟨a', hat', hid', hsha⟩ := ha.kept a hat
    obtain ⟨hp1, hp2⟩ := Prod.mk.inj hpair
    exact ⟨a', hat', hid'.trans (haid.trans hp1), key,
      hp2.symm.trans (hkey.trans (entityId_congr hsha.symm _))⟩

theorem Rooted.of_update (h : Rooted t) (ha : SameArtifacts t t') {p : Materialization → Bool}
    {g : Materialization → Materialization}
    (hm : t'.materializations = updateWhere p g t.materializations)
    (hg : ∀ m, (g m).pair = m.pair) : Rooted t' := by
  refine h.of_pairs ha fun m' hm' => ?_
  rw [hm] at hm'
  obtain ⟨m, hmt, rfl⟩ := mem_updateWhere.mp hm'
  refine ⟨m, hmt, ?_⟩
  split
  · exact (hg m).symm
  · rfl

theorem Rooted.insertArtifact (h : Rooted t) {row : Artifact} (hrow : row.WellNamed) :
    Rooted ((Statement.insertArtifact row).effect t) where
  artifacts a' ha' := by
    rcases List.mem_append.mp ha' with ha' | ha'
    · exact h.artifacts a' ha'
    · rw [List.mem_singleton.mp ha']
      exact hrow
  materializations m hm := by
    obtain ⟨a', ha', hrest⟩ := h.materializations m hm
    exact ⟨a', List.mem_append_left _ ha', hrest⟩

/-- **One statement keeps the rows rooted.** -/
theorem Rooted.effect (h : Rooted t) (hs : t.Stores a) {s : Statement} (hr : s.Roots a) :
    Rooted (s.effect t) := by
  cases s with
  | insertArtifact row => exact h.insertArtifact hr
  | upsertMaterialization row =>
    obtain ⟨haid, key, hkey⟩ := hr
    refine ⟨h.artifacts, fun m hm => ?_⟩
    have hm : m ∈ upsertAll Materialization.pair Materialization.recatalog [row]
        t.materializations := hm
    have hkeep : ∀ n m, Materialization.pair (Materialization.recatalog n m) =
        Materialization.pair m := fun _ _ => rfl
    rcases of_mem_upsertAll hkeep hm with ⟨hm, _⟩ | ⟨new, hnew, hpair, _⟩
    · exact h.materializations m hm
    · rw [List.mem_singleton.mp hnew] at hpair
      obtain ⟨hp1, hp2⟩ := Prod.mk.inj hpair
      obtain ⟨b, hb, hbid, hsha⟩ := hs
      exact ⟨b, hb, hbid.trans (haid.symm.trans hp1), key,
        hp2.symm.trans (hkey.trans (entityId_congr hsha.symm _))⟩
  | claimFunction | failFunction | publishFunction =>
    exact h.of_update (.of_eq rfl) rfl fun _ => rfl
  | _ =>
    exact h.of_pairs (Statement.sameArtifacts (fun _ => Statement.noConfusion) t)
      fun m hm => ⟨m, hm, rfl⟩

/-- **A run of statements keeps the rows rooted.** -/
theorem Rooted.effects (h : Rooted t) (hs : t.Stores a) {ss : List Statement}
    (hr : ∀ s ∈ ss, s.Roots a) : Rooted (Irez.effects ss t) :=
  effects_stored h hs fun s hmem _ h hs => h.effect hs (hr s hmem)

/-- No statement deletes a run. -/
theorem runIds_effects (ss : List Statement) {t : Tables} {r : String} (hr : r ∈ t.runIds) :
    r ∈ (effects ss t).runIds := by
  induction ss generalizing t with
  | nil => exact hr
  | cons s ss ih =>
    refine ih ?_
    unfold Tables.runIds at hr ⊢
    cases s with
    | insertRun row =>
      show r ∈ (t.runs ++ [row]).map (·.id)
      rw [List.map_append]
      exact List.mem_append_left _ hr
    | endRun id status endedAt error =>
      show r ∈ (updateWhere (·.id = id) (Run.ended status endedAt error) t.runs).map (·.id)
      have hids : ∀ r : Run, (Run.ended status endedAt error r).id = r.id := fun _ => rfl
      rw [map_updateWhere hids]
      exact hr
    | _ => exact hr

end Rooted

/-! ## 5. What the transactions leave of claims and runs -/

/-- The columns of claims and runs after a publish. -/
theorem Publish.exec_claims {p : Publish} {io : Faults} {db db' : Database}
    (h : p.exec io db = .ok db') :
    db'.artifacts = db.artifacts ∧
    db'.runs = updateWhere (·.id = p.run) (Run.ended .success p.draw.endedAt none) db.runs ∧
    ∃ f, db'.materializations =
      updateWhere (fun m => m.functionId = f && m.claimOwner = some p.owner)
        (Materialization.published p.run) db.materializations := by
  obtain ⟨_, _, _, _, _, ht⟩ := Publish.exec_ok h
  rw [p.writeStatements_effect, p.replaceStatements_effect] at ht
  rw [ht]
  exact ⟨rfl, rfl, _, rfl⟩

/-- The rows of `materializations` a catalog upserts. -/
def materializationRows (a : Artifact) (records : List Record) : List Materialization :=
  (functionRecords records).map (·.materializationRow a)

theorem effects_functionStatements (a : Artifact) (fs : List FunctionRecord) (t : Tables) :
    (effects (fs.flatMap (·.statements a)) t).artifacts = t.artifacts ∧
    (effects (fs.flatMap (·.statements a)) t).runs = t.runs ∧
    (effects (fs.flatMap (·.statements a)) t).materializations =
      upsertAll Materialization.pair Materialization.recatalog (fs.map (·.materializationRow a))
        t.materializations := by
  induction fs generalizing t with
  | nil => exact ⟨rfl, rfl, rfl⟩
  | cons f fs ih =>
    rw [List.flatMap_cons, effects_append]
    obtain ⟨h1, h2, h3⟩ := ih (effects (f.statements a) t)
    exact ⟨h1, h2, h3⟩

/-- The columns of claims and runs after a catalog is published. -/
theorem publishCatalog_claims {io : Faults} {a : Artifact} {run : String} {module : ModuleRecord}
    {records : List Record} {endedAt : Time} {db db' : Database}
    (h : publishCatalog io a run module records endedAt db = .ok db') :
    db'.artifacts = updateWhere (·.id = a.id)
      (Artifact.published module ((capabilitiesRecord records).getD [])) db.artifacts ∧
    db'.runs = updateWhere (·.id = run) (Run.ended .success endedAt none) db.runs ∧
    db'.materializations = upsertAll Materialization.pair Materialization.recatalog
      (materializationRows a records) db.materializations := by
  have ht := transaction_ok h
  unfold publishCatalogStatements at ht
  rw [effects_append, effects_append, effects_cons, effects_nil, effects_cons, effects_nil] at ht
  obtain ⟨h1, h2, h3⟩ := effects_functionStatements a (functionRecords records)
    ((Statement.publishArtifact module ((capabilitiesRecord records).getD []) a.id).effect
      db.toTables)
  rw [ht]
  refine ⟨h1, ?_, h3⟩
  show updateWhere _ _ (effects _ _).runs = _
  rw [h2]
  rfl

/-! ## 6. Processes under way -/

/-- What every world reached meets: rows are rooted, and what the processes hold is stored
    and their own. -/
structure Grounded (w : World) : Prop where
  rooted : Rooted w.db.toTables
  stores : ∀ p a, (w.phase p).artifact = some a → w.db.Stores a
  drawn : ∀ p d, (w.phase p).claim = some d → d.owner ∈ w.issued ∧ d.runId ∈ w.db.runIds
  distinct : ∀ p q d d', (w.phase p).claim = some d → (w.phase q).claim = some d' →
    d.owner = d'.owner ∨ d.runId = d'.runId → p = q

/-- A claim that nobody has drawn before. -/
def World.NewClaim (w w' : World) (d : ClaimDraw) : Prop :=
  (d.owner ∉ w.issued ∧ d.owner ∈ w'.issued) ∧ d.runId ∉ w.db.runIds ∧ d.runId ∈ w'.db.runIds

section Grounded

variable {w w' : World}

/-- One process moves on, and the tables grow. -/
theorem Grounded.move (h : Grounded w) {p : Nat} {phase : Phase}
    (hphase : w'.phase = Function.update w.phase p phase) (hroot : Rooted w'.db.toTables)
    (hstores : ∀ a, w.db.Stores a → w'.db.Stores a)
    (hissued : ∀ o ∈ w.issued, o ∈ w'.issued) (hruns : ∀ r ∈ w.db.runIds, r ∈ w'.db.runIds)
    (hart : ∀ a, phase.artifact = some a → w'.db.Stores a)
    (hclaim : ∀ d, phase.claim = some d → (w.phase p).claim = some d ∨ w.NewClaim w' d) :
    Grounded w' := by
  have hself : w'.phase p = phase := by rw [hphase, Function.update_self]
  have hother : ∀ q, q ≠ p → w'.phase q = w.phase q := by
    intro q hq
    rw [hphase, Function.update_of_ne hq]
  -- a claim in `w'` is one of `w`, or the new one of `p`
  have hof : ∀ q d, (w'.phase q).claim = some d →
      (w.phase q).claim = some d ∨ (q = p ∧ w.NewClaim w' d) := by
    intro q d hd
    by_cases hq : q = p
    · rw [hq, hself] at hd
      rcases hclaim d hd with hd | hd
      · rw [hq]
        exact Or.inl hd
      · exact Or.inr ⟨hq, hd⟩
    · rw [hother q hq] at hd
      exact Or.inl hd
  refine ⟨hroot, fun q a ha => ?_, fun q d hd => ?_, fun q q' d d' hd hd' heq => ?_⟩
  · by_cases hq : q = p
    · rw [hq, hself] at ha
      exact hart a ha
    · rw [hother q hq] at ha
      exact hstores a (h.stores q a ha)
  · rcases hof q d hd with hd | ⟨_, hnew⟩
    · obtain ⟨ho, hr⟩ := h.drawn q d hd
      exact ⟨hissued _ ho, hruns _ hr⟩
    · exact ⟨hnew.1.2, hnew.2.2⟩
  · rcases hof q d hd with hd | ⟨hq, hnew⟩
    · rcases hof q' d' hd' with hd' | ⟨hq', hnew'⟩
      · exact h.distinct q q' d d' hd hd' heq
      · obtain ⟨ho, hr⟩ := h.drawn q d hd
        rcases heq with heq | heq
        · exact absurd (heq ▸ ho) hnew'.1.1
        · exact absurd (heq ▸ hr) hnew'.2.1
    · rcases hof q' d' hd' with hd' | ⟨hq', _⟩
      · obtain ⟨ho, hr⟩ := h.drawn q' d' hd'
        rcases heq with heq | heq
        · exact absurd (heq.symm ▸ ho) hnew.1.1
        · exact absurd (heq.symm ▸ hr) hnew.2.1
      · exact hq.trans hq'.symm

/-- A transaction of rooted statements that ends the work of a process. -/
theorem Grounded.finish (h : Grounded w) {p : Nat} {a : Artifact}
    (hart : (w.phase p).artifact = some a) {ss : List Statement} (hr : ∀ s ∈ ss, s.Roots a)
    {db' : Database} (ht : db'.toTables = effects ss w.db.toTables) :
    Grounded { w.move p .idle with db := db' } := by
  have hst := h.stores p a hart
  refine h.move rfl ?_ ?_ (fun _ ho => ho) ?_ ?_ ?_
  · show Rooted db'.toTables
    rw [ht]
    exact h.rooted.effects hst hr
  · intro b hb
    show db'.Stores b
    rw [ht]
    exact hb.effects ss
  · intro r hrun
    show r ∈ db'.runIds
    rw [ht]
    exact runIds_effects ss hrun
  · intro b hb
    cases hb
  · intro d hd
    cases hd

theorem publishCatalogStatements_roots (a : Artifact) (run : String) (module : ModuleRecord)
    (records : List Record) (endedAt : Time) :
    ∀ s ∈ publishCatalogStatements a run module records endedAt, s.Roots a := by
  intro s hs
  unfold publishCatalogStatements at hs
  rw [List.mem_append, List.mem_append, List.mem_singleton, List.mem_singleton] at hs
  rcases hs with (rfl | hs) | rfl
  · trivial
  · obtain ⟨f, _, hs⟩ := List.mem_flatMap.mp hs
    simp only [FunctionRecord.statements, List.mem_cons, List.not_mem_nil, or_false] at hs
    rcases hs with rfl | rfl | rfl
    · trivial
    · exact ⟨rfl, f.key, rfl⟩
    · trivial
  · trivial

/-- A publish inserts no artifact and upserts no materialization. -/
theorem Publish.statements_roots (p : Publish) (ids : String → Option String) (a : Artifact) :
    ∀ s ∈ replaceStatements p.target p.entities ++ p.writeStatements ids, s.Roots a := by
  intro s hs
  unfold replaceStatements writeStatements ownerStatements at hs
  simp only [List.mem_append, List.mem_map, List.mem_cons, List.not_mem_nil, or_false] at hs
  rcases hs with ((rfl | rfl | rfl) | ⟨e, _, rfl⟩) |
    ((((⟨e, _, rfl⟩ | ⟨r, _, rfl⟩) | ⟨q, _, rfl⟩) | rfl | rfl) | ⟨c, _, rfl⟩) | rfl | rfl
  all_goals trivial

/-- A transaction of rooted statements that begins the work of a process. -/
theorem Grounded.begin (h : Grounded w) {p : Nat} {a : Artifact} {phase : Phase} {d : ClaimDraw}
    {w' : World} (hart : (w.phase p).artifact = some a) (hart' : phase.artifact = some a)
    (hclaim : phase.claim = some d) (hd : w.Draws d) {ss : List Statement}
    (hr : ∀ s ∈ ss, s.Roots a) (ht : w'.db.toTables = effects ss w.db.toTables)
    (hnew : d.runId ∉ w.db.runIds) (hrun : d.runId ∈ w'.db.runIds)
    (hissued : w'.issued = d.owner :: w.issued)
    (hphase : w'.phase = Function.update w.phase p phase) : Grounded w' := by
  have hst := h.stores p a hart
  have hstores : ∀ b, w.db.Stores b → w'.db.Stores b := by
    intro b hb
    rw [ht]
    exact hb.effects ss
  refine h.move hphase ?_ hstores ?_ ?_ ?_ ?_
  · rw [ht]
    exact h.rooted.effects hst hr
  · intro o ho
    rw [hissued]
    exact List.mem_cons_of_mem _ ho
  · intro r hrm
    rw [ht]
    exact runIds_effects ss hrm
  · intro b hb
    rw [hart'] at hb
    obtain rfl := Option.some.inj hb
    exact hstores _ hst
  · intro d' hd'
    rw [hclaim] at hd'
    obtain rfl := Option.some.inj hd'
    refine Or.inr ⟨⟨hd.fresh, ?_⟩, hnew, hrun⟩
    rw [hissued]
    exact List.mem_cons_self

/-- A process moves on without a transaction, to a phase without a claim. -/
theorem Grounded.still (h : Grounded w) {p : Nat} {phase : Phase}
    (hart : ∀ a, phase.artifact = some a → w.db.Stores a) (hclaim : phase.claim = none) :
    Grounded (w.move p phase) := by
  refine h.move rfl h.rooted (fun _ ha => ha) (fun _ ho => ho) (fun _ hr => hr) hart ?_
  intro d hd
  rw [hclaim] at hd
  cases hd

/-- Tables change, no process moves. -/
theorem Grounded.tables (h : Grounded w) {db' : Database} (hroot : Rooted db'.toTables)
    {ss : List Statement} (ht : db'.toTables = effects ss w.db.toTables) :
    Grounded { w with db := db' } where
  rooted := hroot
  stores p a ha := by
    show db'.Stores a
    rw [ht]
    exact (h.stores p a ha).effects ss
  drawn p d hd := by
    obtain ⟨ho, hr⟩ := h.drawn p d hd
    refine ⟨ho, ?_⟩
    show d.runId ∈ db'.runIds
    rw [ht]
    exact runIds_effects ss hr
  distinct := h.distinct

/-- **One step keeps the worlds grounded.** -/
theorem Grounded.step {l : Label} (h : Grounded w) (hs : World.Step w l w') : Grounded w' := by
  cases hs with
  | tick hl => exact ⟨h.rooted, h.stores, h.drawn, h.distinct⟩
  | @init row db' _ ht =>
    have hart : db'.artifacts = w.db.artifacts := by rw [ht]
    have hmats : db'.materializations = w.db.materializations := by rw [ht]
    refine ⟨?_, fun p a ha => ?_, fun p d hd => ?_, h.distinct⟩
    · exact h.rooted.of_pairs (.of_eq hart) fun m hm => ⟨m, hmats ▸ hm, rfl⟩
    · exact (SameArtifacts.of_eq hart).stores (h.stores p a ha)
    · refine ⟨(h.drawn p d hd).1, ?_⟩
      show d.runId ∈ db'.runIds
      unfold Tables.runIds
      rw [ht]
      exact (h.drawn p d hd).2
  | @store io a db' ha _ he =>
    have ht : db'.toTables = effects [.insertArtifact a] w.db.toTables := exec_ok he
    refine h.tables ?_ ht
    rw [ht]
    exact h.rooted.insertArtifact ha
  | @mark io s db' hm he =>
    have ht : db'.toTables = effects [s] w.db.toTables := exec_ok he
    refine h.tables ?_ ht
    rw [ht]
    obtain ⟨id, rfl | rfl⟩ := hm
    · exact h.rooted.of_pairs (.update rfl fun _ => ⟨rfl, rfl⟩) fun m hm => ⟨m, hm, rfl⟩
    · exact h.rooted.of_pairs (.update rfl fun _ => ⟨rfl, rfl⟩) fun m hm => ⟨m, hm, rfl⟩
  | @enter p handle refresh target hp hent =>
    refine h.still (fun a ha => ?_) rfl
    cases ha
    exact ⟨_, mem_of_lookup (enter_analyse hent).2.2, rfl, rfl⟩
  | @claim p io d target db' hp hd hc =>
    obtain ⟨_, _, _, hnew, _⟩ := claimFunction_ok hc
    obtain ⟨run, hrun, ht⟩ := claimFunction_effects hc
    refine h.begin (a := target.artifact) (by rw [hp]; rfl) rfl rfl hd (fun s hs => ?_) ht hnew ?_
      rfl rfl
    · simp only [List.mem_cons, List.not_mem_nil, or_false] at hs
      rcases hs with rfl | rfl
      · trivial
      · trivial
    · show d.runId ∈ db'.runIds
      rw [ht, ← hrun]
      exact List.mem_map_of_mem (List.mem_append_right _ List.mem_cons_self)
  | @publish p io d target draw records db' hp he =>
    obtain ⟨_, _, _, _, _, ht⟩ := Publish.exec_ok he
    rw [← effects_append] at ht
    exact h.finish (by rw [hp]; rfl) (Publish.statements_roots _ _ _) ht
  | @fail p io d target message endedAt db' hp he =>
    refine h.finish (by rw [hp]; rfl) (fun s hs => ?_) (transaction_ok he)
    simp only [failFunctionStatements, List.mem_cons, List.not_mem_nil, or_false] at hs
    rcases hs with rfl | rfl
    · trivial
    · trivial
  | @ingest p a hp ha =>
    refine h.still (fun b hb => ?_) rfl
    cases hb
    exact ⟨_, ha, rfl, rfl⟩
  | @claimCatalog p io d a index db' hp hd hc =>
    obtain ⟨_, _, _, hnew, _⟩ := claimCatalog_ok hc
    obtain ⟨run, hrun, ht⟩ := claimCatalog_effects hc
    refine h.begin (a := a) (by rw [hp]; rfl) rfl rfl hd (fun s hs => ?_) ht hnew ?_ rfl rfl
    · simp only [List.mem_cons, List.not_mem_nil, or_false] at hs
      rcases hs with rfl | rfl | rfl
      · trivial
      · trivial
      · trivial
    · show d.runId ∈ db'.runIds
      rw [ht, ← hrun]
      exact List.mem_map_of_mem (List.mem_append_right _ List.mem_cons_self)
  | @publishCatalog p io d a module records endedAt db' hp he =>
    exact h.finish (by rw [hp]; rfl) (publishCatalogStatements_roots _ _ _ _ _) (transaction_ok he)
  | @failCatalog p io d a message endedAt db' hp he =>
    refine h.finish (a := a) (by rw [hp]; rfl) (fun s hs => ?_) (transaction_ok he)
    simp only [failCatalogStatements, List.mem_cons, List.not_mem_nil, or_false] at hs
    rcases hs with rfl | rfl
    · trivial
    · trivial
  | leave => exact h.still (fun a ha => by cases ha) rfl

theorem World.Initial.grounded (h : w.Initial) : Grounded w where
  rooted :=
    { artifacts := by
        rw [h.artifacts]
        exact fun a ha => absurd ha List.not_mem_nil
      materializations := by
        rw [h.materializations]
        exact fun m hm => absurd hm List.not_mem_nil }
  stores p a ha := by
    rw [h.idle p] at ha
    cases ha
  drawn p d hd := by
    rw [h.idle p] at hd
    cases hd
  distinct p q d d' hd := by
    rw [h.idle p] at hd
    cases hd

/-- **Every world reached is grounded.** -/
theorem Runs.grounded {C : Condition} (h : Runs C w) : Grounded w :=
  h.invariant (fun _ h₀ => h₀.grounded) fun hg hs _ => hg.step hs

end Grounded

/-! ## 7. A catalogued module of one function -/

namespace Scenario

def module : Module :=
  { identifier := "m", sourceFile := "m.c", targetTriple := "", dataLayout := "",
    functions := [Collision.function "main"], globals := [], others := [] }

def records : List Record := catalog module

def stream : List Record := functionGraph (fun _ => Collision.tree) module "f0"

/-- The database a transaction leaves. -/
def after (result : Except Thrown Database) : Database :=
  match result with
  | .ok db => db
  | .error _ => Collision.empty

def initial : World :=
  { db := Collision.empty, now := 1, issued := [], claims := [], phase := fun _ => .idle }

def stored : World := { initial with db := Sample.database }

def ingesting : World := stored.move 0 (.ingesting Sample.artifact)

/-- The claim of the process `0` on the artifact. -/
def catalogDraw : ClaimDraw := Sample.claimDraw "c" "c" 1

def cataloging : World :=
  { ingesting.move 0 (.cataloging Sample.artifact catalogDraw) with
    db := after (claimCatalog noFaults catalogDraw Sample.artifact .catalog Sample.database)
    issued := [catalogDraw.owner]
    claims := [(Sample.artifact.id, catalogDraw.owner)] }

def moduleRecord : ModuleRecord := ⟨"m", "m.c", "", ""⟩

/-- The artifact catalogued, and nobody at work. -/
def catalogued : World :=
  { cataloging.move 0 .idle with
    db := after (publishCatalog noFaults Sample.artifact catalogDraw.runId moduleRecord records 2
      cataloging.db) }

def handle : String := entityId Sample.artifact (functionLocal "f0")

/-- `f0` as a process reads it. -/
def target (db : Database) : Target :=
  ⟨(db.entity handle).getD (Sample.record.entityRow Sample.artifact),
    (db.artifact Sample.artifact.id).getD Sample.artifact⟩

/-- The world after the process `p` has read the function and claimed it. -/
def analysing (w : World) (p : Nat) (d : ClaimDraw) : World :=
  { (w.move p (.entered (target w.db))).move p (.analysing (target w.db) d) with
    db := after (claimFunction noFaults d (target w.db) w.db), issued := d.owner :: w.issued }

/-- The world after the process `p` has read the artifact and claimed its catalog. -/
def refreshing (w : World) (p : Nat) (d : ClaimDraw) : World :=
  { (w.move p (.ingesting (target w.db).artifact)).move p
      (.cataloging (target w.db).artifact d) with
    db := after (claimCatalog noFaults d (target w.db).artifact .catalog w.db)
    issued := d.owner :: w.issued
    claims := ((target w.db).artifact.id, d.owner) :: w.claims }

/-- The world after the process `p` has published the catalog it claimed by `d`. -/
def refreshed (w : World) (p : Nat) (d : ClaimDraw) : World :=
  { w.move p .idle with
    db := after (publishCatalog noFaults (target w.db).artifact d.runId moduleRecord records 2
      w.db) }

theorem initial_initial : initial.Initial :=
  ⟨rfl, rfl, rfl, rfl, rfl, fun _ => rfl⟩

theorem cataloging_steps {C : Condition} (hs : ∀ w, C w .silent)
    (hc : ∀ w p, C w (.claimCatalog p)) : Runs C cataloging := by
  have h₁ : World.Step initial .silent stored :=
    @World.Step.store initial noFaults Sample.artifact Sample.database ⟨by decide, by decide⟩
      ⟨rfl, rfl, rfl, rfl⟩ rfl
  have h₂ : World.Step stored .silent ingesting := .ingest rfl (List.mem_singleton.mpr rfl)
  have h₃ : World.Step ingesting (.claimCatalog 0) cataloging :=
    @World.Step.claimCatalog ingesting 0 noFaults catalogDraw Sample.artifact .catalog _ rfl
      ⟨List.not_mem_nil, Nat.le_refl 1, rfl⟩ rfl
  exact ⟨initial, initial_initial, ((Relation.ReflTransGen.single ⟨_, h₁, hs _⟩).tail
    ⟨_, h₂, hs _⟩).tail ⟨_, h₃, hc _ _⟩⟩

theorem catalogued_runs {C : Condition} (hs : ∀ w, C w .silent)
    (hc : ∀ w p, C w (.claimCatalog p)) (hp : C cataloging (.publishCatalog 0 records)) :
    Runs C catalogued := by
  obtain ⟨w₀, h₀, hrun⟩ := cataloging_steps hs hc
  have h₄ : World.Step cataloging (.publishCatalog 0 records) catalogued :=
    @World.Step.publishCatalog cataloging 0 noFaults catalogDraw Sample.artifact moduleRecord
      records 2 _ rfl rfl
  exact ⟨w₀, h₀, hrun.tail ⟨_, h₄, hp⟩⟩

section Steps

variable {C : Condition} {w : World} {p : Nat} {d : ClaimDraw}

theorem analysing_run (h : Runs C w) (hs : C w .silent)
    (hc : C (w.move p (.entered (target w.db))) (.claim p)) (hp : w.phase p = .idle)
    (hent : enter w.db.toTables handle false = .ok (.analyse (target w.db)))
    (hd : w.Draws d)
    (hok : claimFunction noFaults d (target w.db) w.db = .ok (analysing w p d).db) :
    Runs C (analysing w p d) := by
  obtain ⟨w₀, h₀, hrun⟩ := h
  have h₁ : World.Step w .silent (w.move p (.entered (target w.db))) := .enter hp hent
  have h₂ : World.Step (w.move p (.entered (target w.db))) (.claim p) (analysing w p d) :=
    .claim (move_phase _) ⟨hd.fresh, hd.claimed, hd.current⟩ hok
  exact ⟨w₀, h₀, (hrun.tail ⟨_, h₁, hs⟩).tail ⟨_, h₂, hc⟩⟩

theorem refreshing_run (h : Runs C w) (hs : C w .silent)
    (hc : C (w.move p (.ingesting (target w.db).artifact)) (.claimCatalog p))
    (hp : w.phase p = .idle) (ha : (target w.db).artifact ∈ w.db.artifacts) (hd : w.Draws d)
    (hok : claimCatalog noFaults d (target w.db).artifact .catalog w.db =
      .ok (refreshing w p d).db) : Runs C (refreshing w p d) := by
  obtain ⟨w₀, h₀, hrun⟩ := h
  have h₁ : World.Step w .silent (w.move p (.ingesting (target w.db).artifact)) := .ingest hp ha
  have h₂ : World.Step (w.move p (.ingesting (target w.db).artifact)) (.claimCatalog p)
      (refreshing w p d) :=
    .claimCatalog (move_phase _) ⟨hd.fresh, hd.claimed, hd.current⟩ hok
  exact ⟨w₀, h₀, (hrun.tail ⟨_, h₁, hs⟩).tail ⟨_, h₂, hc⟩⟩

end Steps

/-- The process `1` claims `f0`. -/
def claimed : World := analysing catalogued 1 (Sample.claimDraw "a" "a" 1)

theorem claimed_runs {C : Condition} (h : Runs C catalogued) (hs : ∀ w, C w .silent)
    (hc : ∀ w p, C w (.claim p)) : Runs C claimed :=
  analysing_run h (hs _) (hc _ _) rfl rfl ⟨by decide, Nat.le_refl 1, rfl⟩ rfl

end Scenario

end Irez
